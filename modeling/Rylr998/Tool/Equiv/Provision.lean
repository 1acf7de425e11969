import Rylr998.Tool.Equiv.Answering
import Rylr998.Tool.Equiv.Settings

/-!
# What `provision` finds out

When `provision` returns without an error in a clean run, the settings that it was asked for are
the settings of the radio, and the others are as they were. When it says that a setting could not be
verified, that setting is not what was asked for. The radio may do with a value what it likes, as
long as it tells the truth about its settings (`provision_verdict`).

`provision` can return without an error, whatever the port hands it, exactly when the password in
the request, if there is one, is empty or of the form in which a radio reports a password; and then
every radio that keeps its settings can make it do so (`provision_possible_iff`).
-/

namespace Rylr998.Tool

open Interact Labelled

namespace Request

/-- The settings are those asked for; the others are as they were. -/
def Holds (q : Request) (s₀ s : Settings) : Prop :=
  ∀ {α : Type} (k : Setting α),
    (∀ v, q.asks k = some v → k.same (k.get s) v = true) ∧ (q.asks k = none → k.get s = k.get s₀)

/-- The setting with this name is not the one asked for. -/
def Differs (q : Request) (field : String) (s : Settings) : Prop :=
  ∃ (α : Type) (k : Setting α) (v : α), q.asks k = some v ∧ k.field = field ∧
    k.same (k.get s) v = false

/-- The settings with these names are verified, and the others are as they were. -/
def Progress (q : Request) (s₀ : Settings) (done : List String) (s : Settings) : Prop :=
  ∀ {α : Type} (k : Setting α),
    (k.field ∈ done → ∀ v, q.asks k = some v → k.same (k.get s) v = true) ∧
      (k.field ∉ done ∨ q.asks k = none → k.get s = k.get s₀)

section

variable {q : Request} {s₀ s : Settings} {done : List String} {α : Type} {k : Setting α} {v : α}

theorem progress_nil : q.Progress s₀ [] s₀ := fun _ => ⟨nofun, fun _ => rfl⟩

/-- A setting that is not asked for is left alone. -/
theorem Progress.skip (h : q.Progress s₀ done s) (hask : q.asks k = none) :
    q.Progress s₀ (k.field :: done) s := by
  intro β k'
  obtain ⟨hverified, hkept⟩ := h k'
  rw [List.mem_cons, not_or]
  refine ⟨?_, fun hk' => hkept (hk'.imp_left And.right)⟩
  rintro (hfield | hdone)
  · obtain ⟨rfl, hk⟩ := Sigma.mk.inj (Setting.field_injective hfield)
    rw [eq_of_heq hk, hask]
    nofun
  · exact hverified hdone

/-- A setting is verified. -/
theorem Progress.put (h : q.Progress s₀ done s) (hask : q.asks k = some v) {v' : α}
    (hsame : k.same v' v = true) : q.Progress s₀ (k.field :: done) (k.put s v') := by
  intro β k'
  obtain ⟨hverified, hkept⟩ := h k'
  rw [List.mem_cons, not_or]
  by_cases hfield : k'.field = k.field
  · obtain ⟨rfl, hk⟩ := Sigma.mk.inj (Setting.field_injective hfield)
    obtain rfl := eq_of_heq hk
    rw [Setting.get_put, hask]
    refine ⟨fun _ v₁ hv => Option.some.inj hv ▸ hsame, ?_⟩
    rintro (⟨hne, -⟩ | hnone)
    · exact absurd rfl hne
    · cases hnone
  · rw [Setting.get_put_of_ne hfield]
    exact ⟨fun hk' => hverified (hk'.resolve_left hfield),
      fun hk' => hkept (hk'.imp_left And.right)⟩

end

end Request

section

variable [Target] {α : Type} {q : Request} {s₀ : Settings} {cs : List Chunk}

/-- Set a setting and verify it, if it is asked for. -/
def Request.verify (q : Request) (k : Setting α) : ToolM Unit :=
  (q.asks k).forM fun v =>
    setAndVerify (k.setMethod v) (Reading.setting k).method (k.same · v) k.field

theorem provision_eq (q : Request) :
    provision q.address q.net q.cpin q.band q.params = (do
      q.verify .address
      q.verify .networkId
      q.verify .cpin
      q.verify .band
      q.verify .parameters
      printLine (.provisioned q.address q.net q.cpin q.band q.params)) := rfl

/-! ### Set and verify -/

/-- How `setAndVerify` ends. -/
inductive Verified (k : Setting α) (v : α) (R : List Line → Settings → Prop) :
    Except Error Unit → Process → World × Settings → Prop
  | ok {p : Process} {e : World × Settings} :
    Ready (fun lines s' => ∃ s v', R lines s ∧ s' = k.put s v' ∧ k.same v' v = true) p e →
    Verified k v R (.ok ()) p e
  | differs {p : Process} {e : World × Settings} :
    Ready (fun _ s => k.same (k.get s) v = false) p e →
    Verified k v R (.error (verifyFailed k.field)) p e
  | failed {err : Std.Error} {p : Process} {e : World × Settings} :
    Verified k v R (.error (.std err)) p e

theorem stable_verified (k : Setting α) (v : α) (R : List Line → Settings → Prop)
    (r : Except Error Unit) :
    Stable (environment (Device.plain Settings.Truthful)) (Verified k v R r) := by
  constructor
  intro p e e' h hseen
  cases h with
  | ok h => exact .ok ((stable_ready _).keeps h hseen)
  | differs h => exact .differs ((stable_ready _).keeps h hseen)
  | failed => exact .failed

theorem setAndVerify_triple (k : Setting α) (v : α) (R : List Line → Settings → Prop) :
    Triple (environment (Device.plain Settings.Truthful)) (Ready R)
      (setAndVerify (k.setMethod v) (Reading.setting k).method (k.same · v) k.field)
      (Verified k v R) := by
  refine Returned.bind (set_triple k v R) (fun _ => ?_) .failed
  refine Returned.bind (get_triple (.setting k) _) (fun a => ?_) .failed
  dsimp only
  split
  · next hsame =>
    refine (Triple.pure (stable_verified k v R) ()).weaken ?_ id
    rintro p e ⟨hsettled, ⟨s, v', hR, hs⟩, ha⟩
    obtain rfl : a = v' := by
      rw [ha, hs]
      exact k.get_put s v'
    exact .ok ⟨hsettled, s, a, hR, hs, hsame⟩
  · next hsame =>
    refine (Triple.throw (stable_verified k v R) (verifyFailed k.field)).weaken ?_ id
    rintro p e ⟨hsettled, -, rfl⟩
    exact .differs ⟨hsettled, Bool.eq_false_of_not_eq_true hsame⟩

/-! ### The command -/

/-- How `provision` ends, or a part of it. -/
inductive Ended (q : Request) (R : List Line → Settings → Prop) :
    Except Error Unit → Process → World × Settings → Prop
  | ok {p : Process} {e : World × Settings} : Ready R p e → Ended q R (.ok ()) p e
  | differs {field : String} {p : Process} {e : World × Settings} :
    Ready (fun _ s => q.Differs field s) p e → Ended q R (.error (verifyFailed field)) p e
  | failed {err : Std.Error} {p : Process} {e : World × Settings} :
    Ended q R (.error (.std err)) p e

theorem stable_ended (R : List Line → Settings → Prop) (r : Except Error Unit) :
    Stable (environment (Device.plain Settings.Truthful)) (Ended q R r) := by
  constructor
  intro p e e' h hseen
  cases h with
  | ok h => exact .ok ((stable_ready _).keeps h hseen)
  | differs h => exact .differs ((stable_ready _).keeps h hseen)
  | failed => exact .failed

theorem verify_triple (s₀ : Settings) (k : Setting α) (done : List String) :
    Triple (environment (Device.plain Settings.Truthful))
      (Ready fun lines s => lines = [] ∧ q.Progress s₀ done s) (q.verify k)
      (Ended q fun lines s => lines = [] ∧ q.Progress s₀ (k.field :: done) s) := by
  unfold Request.verify
  cases hask : q.asks k with
  | none =>
    refine (Triple.pure (stable_ended _) ()).weaken ?_ id
    rintro p e ⟨hsettled, hlines, hprogress⟩
    exact .ok ⟨hsettled, hlines, hprogress.skip hask⟩
  | some v =>
    refine (setAndVerify_triple k v _).weaken id ?_
    intro r p e h
    cases h with
    | ok h =>
      obtain ⟨hsettled, s, v', ⟨hlines, hprogress⟩, hs, hsame⟩ := h
      exact .ok ⟨hsettled, hlines, hs ▸ hprogress.put hask hsame⟩
    | differs h => exact .differs ⟨h.1, α, k, v, hask, rfl, h.2⟩
    | failed => exact .failed

theorem Ended.bind {R R' : List Line → Settings → Prop} {P : Process → World × Settings → Prop}
    {x y : ToolM Unit} (hx : Triple (environment (Device.plain Settings.Truthful)) P x (Ended q R))
    (hy : Triple (environment (Device.plain Settings.Truthful)) (Ready R) y (Ended q R')) :
    Triple (environment (Device.plain Settings.Truthful)) P (x >>= fun _ => y) (Ended q R') := by
  refine hx.bind (fun _ => hy.weaken (fun | .ok h => h) id) ?_
  intro err p e h
  cases h with
  | differs h => exact .differs h
  | failed => exact .failed

theorem provision_triple :
    Triple (environment (Device.plain Settings.Truthful)) (Ready fun lines s => lines = [] ∧ s = s₀)
      (provision q.address q.net q.cpin q.band q.params)
      (Ended q fun lines s =>
        lines = [.provisioned q.address q.net q.cpin q.band q.params] ∧ q.Holds s₀ s) := by
  rw [provision_eq]
  refine Ended.bind ((verify_triple s₀ .address []).weaken ?_ id) ?_
  · rintro p e ⟨hsettled, hlines, rfl⟩
    exact ⟨hsettled, hlines, Request.progress_nil⟩
  refine Ended.bind (verify_triple s₀ .networkId _) ?_
  refine Ended.bind (verify_triple s₀ .cpin _) ?_
  refine Ended.bind (verify_triple s₀ .band _) ?_
  refine Ended.bind (verify_triple s₀ .parameters _) ?_
  refine (printLine_triple _ (stable_ended _)).weaken ?_ id
  rintro p e ⟨hsettled, hlines, hprogress⟩
  refine .ok ⟨hsettled, ?_, fun k => ⟨(hprogress k).1 ?_, fun h => (hprogress k).2 (Or.inr h)⟩⟩
  · show p.lines ++ _ = _
    rw [hlines, List.nil_append]
  · cases k <;> decide

/-! ### A radio that answers at once -/

theorem setAndVerify_possible {k : Setting α} {v : α} (hv : k.Reportable v) :
    ∃ cs', Possible (environment Settings.Store) (Live cs' fun _ => True)
      (setAndVerify (k.setMethod v) (Reading.setting k).method (k.same · v) k.field)
      fun _ => Live cs fun _ => True := by
  obtain ⟨line, hget⟩ := Setting.exists_atOnce_query hv
  have hset := Setting.atOnce_setter hv
  rw [show k.query = _ from (Reading.setting k).method_command.symm] at hget
  rw [← k.setMethod_command] at hset
  refine ⟨hset.chunk :: hget.chunk :: cs, ?_⟩
  have hsetting : Possible (environment Settings.Store)
      (Live (hset.chunk :: hget.chunk :: cs) fun _ => True) (command (k.setMethod v))
      fun _ => Live (hget.chunk :: cs) fun s => k.get s = v := by
    have hwant : (k.setMethod v).want .ok = some (.ok ()) := by
      rw [k.setMethod_want]
      rfl
    refine (command_possible hset hwant ?_).weaken id And.right
    intro s _
    rw [k.setMethod_command]
    exact ⟨_, Settings.store_setter k v s, k.get_put s v⟩
  have hgetting : Possible (environment Settings.Store)
      (Live (hget.chunk :: cs) fun s => k.get s = v) (command (Reading.setting k).method)
      fun a p e => a = v ∧ Live cs (fun _ => True) p e := by
    refine command_possible hget ((Reading.setting k).method_want_reply v) ?_
    rintro s rfl
    rw [(Reading.setting k).method_command]
    exact ⟨s, Settings.store_query (.setting k) s, trivial⟩
  refine hsetting.bind fun _ => hgetting.bind fun a => ?_
  dsimp only
  split
  · exact (Possible.pure ()).weaken And.right id
  · next hsame =>
    refine ⟨?_⟩
    rintro p e ⟨ha, -⟩
    exact absurd (ha ▸ k.same_self a) hsame

theorem verify_possible (hq : q.Reportable) (k : Setting α) (cs : List Chunk) :
    ∃ cs', Possible (environment Settings.Store) (Live cs' fun _ => True) (q.verify k)
      fun _ => Live cs fun _ => True := by
  unfold Request.verify
  cases hask : q.asks k with
  | none => exact ⟨cs, (Possible.pure ()).weaken id id⟩
  | some v => exact setAndVerify_possible (hq k v hask)

/-- A radio that keeps its settings and answers at once can be provisioned. -/
theorem provision_possible (hq : q.Reportable) :
    ∃ cs, Possible (environment Settings.Store) (Live cs fun _ => True)
      (provision q.address q.net q.cpin q.band q.params) fun _ => Live [] fun _ => True := by
  obtain ⟨cs₅, hparameters⟩ := verify_possible hq .parameters []
  obtain ⟨cs₄, hband⟩ := verify_possible hq .band cs₅
  obtain ⟨cs₃, hcpin⟩ := verify_possible hq .cpin cs₄
  obtain ⟨cs₂, hnetworkId⟩ := verify_possible hq .networkId cs₃
  obtain ⟨cs₁, haddress⟩ := verify_possible hq .address cs₂
  refine ⟨cs₁, ?_⟩
  rw [provision_eq]
  refine haddress.bind fun _ => hnetworkId.bind fun _ => hcpin.bind fun _ => hband.bind fun _ =>
    hparameters.bind fun _ => ?_
  exact printLine_possible _

/-- A radio that keeps its settings and answers at once makes `provision` succeed in a clean run. -/
theorem exists_provisioned (hq : q.Reportable) (s₀ : Settings) :
    ∃ port, ∀ stdin handler stops, ∃ p ls e,
      Returns (provision q.address q.net q.cpin q.band q.params)
        (.start port stdin handler stops) (.ok ()) p ∧
      Path (Device.Happens Settings.Store) (World.init, s₀) ls e ∧ (∀ l ∈ ls, l.Clean) ∧
      ls.filterMap Label.call? = p.calls := by
  obtain ⟨cs, hprovision⟩ := provision_possible hq
  refine ⟨answering cs, fun stdin handler stops => ?_⟩
  obtain ⟨⟨⟩, p, calls, e, hreturns, hcalls, ⟨ls, hpath, hls⟩, -⟩ :=
    hprovision.returns (live_start cs stdin handler stops trivial)
  obtain rfl : p.calls = calls := hcalls
  obtain ⟨hpath, hclean⟩ := Device.path_cleanly_iff.mp hpath
  exact ⟨p, ls, e, hreturns, hpath, hclean, hls⟩

/-! ### The verdict -/

/-- **Provisioning tells the truth.** If `provision` returns without an error after a clean run, the
radio has the settings asked for, and its other settings are as before. If it says that a setting
could not be verified, the radio has another value for it. -/
theorem provision_verdict {port : Std.Port} {stdin : Except ErrorKind (List UInt8)}
    {handler : Except String Unit} {stops : List Bool} {p : Process} {r : Except Error Unit}
    {ls : List Label} {w : World} {s : Settings}
    (h : Returns (provision q.address q.net q.cpin q.band q.params)
      (.start port stdin handler stops) r p)
    (hpath : Path (Device.Happens Settings.Truthful) (World.init, s₀) ls (w, s))
    (hclean : ∀ l ∈ ls, l.Clean) (hls : ls.filterMap Label.call? = p.calls) :
    (r = .ok () → q.Holds s₀ s) ∧
      ∀ text, r = .error (.other text) →
        ∃ field, Error.other text = verifyFailed field ∧ q.Differs field s := by
  have hended := provision_triple.post (ready_start s₀ port stdin handler stops) h rfl
    ⟨ls, Device.plain_of_clean hpath hclean, hls⟩
  cases hended with
  | ok h => exact ⟨fun _ => h.2.2, nofun⟩
  | differs h => exact ⟨nofun, fun text htext => ⟨_, (Except.error.inj htext).symm, h.2⟩⟩
  | failed => exact ⟨nofun, nofun⟩

end

section

attribute [local instance] Target.host

/-- A radio that is provisioned with an address and a password. -/
theorem provision_verdict_address : ∃ s : Settings,
    (⟨5, 18, some "FABC0002", none, none⟩ : Request).Holds
      ⟨0, 18, 915000000, "", ⟨9, 7, 1, 12⟩, 22, "", ""⟩ s := by
  have hq : (⟨5, 18, some "FABC0002", none, none⟩ : Request).Reportable := by
    rintro α (_ | _ | _ | _ | _) v h <;> cases h
    · trivial
    · trivial
    · exact Or.inr ⟨by decide, by decide, by decide⟩
  obtain ⟨port, h⟩ := exists_provisioned hq ⟨0, 18, 915000000, "", ⟨9, 7, 1, 12⟩, 22, "", ""⟩
  obtain ⟨p, ls, ⟨w, s⟩, hreturns, hpath, hclean, hls⟩ := h (.ok []) (.ok ()) []
  have htruthful := hpath.mono fun hmove => hmove.mono And.left
  exact ⟨s, (provision_verdict hreturns htruthful hclean hls).1 rfl⟩

end

/-! ### What can be provisioned -/

theorem isAsciiHexdigit_toAsciiLowercase (b : UInt8) :
    isAsciiHexdigit (toAsciiLowercase b) = isAsciiHexdigit b := by
  obtain ⟨n, rfl⟩ : ∃ n : Fin 256, b = UInt8.ofFin n := ⟨b.toFin, rfl⟩
  revert n
  decide +kernel

theorem toAsciiLowercase_eq_zero (b : UInt8) : (toAsciiLowercase b == 48) = (b == 48) := by
  obtain ⟨n, rfl⟩ : ∃ n : Fin 256, b = UInt8.ofFin n := ⟨b.toFin, rfl⟩
  revert n
  decide +kernel

/-- A predicate that does not look at the case is true of both of two such strings, or of none. -/
theorem all_of_eqIgnoreAsciiCase {s t : String} (h : eqIgnoreAsciiCase s t = true)
    {f : UInt8 → Bool} (hf : ∀ b, f (toAsciiLowercase b) = f b) :
    (utf8 s).all f = (utf8 t).all f := by
  have hall (l : List UInt8) : (l.map toAsciiLowercase).all f = l.all f := by
    rw [List.all_map]
    exact congrArg l.all (funext hf)
  rw [← hall, of_decide_eq_true h, hall]

theorem isPassword_of_eqIgnoreAsciiCase {s t : String} (h : eqIgnoreAsciiCase s t = true)
    (hs : IsPassword s) : IsPassword t := by
  obtain ⟨hlen, hhex, hzero⟩ := hs
  have hlength := congrArg List.length (of_decide_eq_true h)
  rw [List.length_map, List.length_map] at hlength
  exact ⟨hlength ▸ hlen, all_of_eqIgnoreAsciiCase h isAsciiHexdigit_toAsciiLowercase ▸ hhex,
    all_of_eqIgnoreAsciiCase (f := (· == 48)) h toAsciiLowercase_eq_zero ▸ hzero⟩

theorem reportable_of_eqIgnoreAsciiCase {s t : String} (h : eqIgnoreAsciiCase s t = true)
    (hs : s = "" ∨ IsPassword s) : t = "" ∨ IsPassword t := by
  rcases hs with rfl | hs
  · have ht := List.map_eq_nil_iff.mp (of_decide_eq_true h).symm
    exact Or.inl (utf8_injective ht)
  · exact Or.inr (isPassword_of_eqIgnoreAsciiCase h hs)

section

variable [Target]

/-- A password that is returned is empty or well formed, whatever the radio sends. -/
theorem password_of_returns {p p' : Process} {s : String}
    (h : Returns (command .cpin) p (.ok s) p') : s = "" ∨ IsPassword s := by
  obtain ⟨out, radio, hcommand, hout, -⟩ := returns_command_iff.mp h
  obtain rfl : out = .ok s := by
    cases out <;> cases hout
    rfl
  rcases Std.Radio.command_ends hcommand with ⟨-, -, rs, r, hrs, hr, -⟩ | ⟨e, he, -⟩
  · obtain rfl : r = .cpin s := by
      cases r <;> cases hr
      rfl
    have hmem : Response.cpin s ∈ rs ++ [.cpin s] := List.mem_append_right _ List.mem_cons_self
    obtain ⟨kind, line, hreply⟩ :=
      (Std.Radio.command_calls hcommand).1.isReply (hrs ▸ hmem)
    exact Setting.reportable_of_isReply hreply
  · cases he

/-- A password that is verified is empty or well formed. -/
theorem password_of_verify {q : Request} {password : String} {p p' : Process}
    (hcpin : q.cpin = some password) (h : Returns (q.verify .cpin) p (.ok ()) p') :
    password = "" ∨ IsPassword password := by
  unfold Request.verify at h
  rw [show q.asks .cpin = some password from hcpin] at h
  obtain ⟨_, p₁, -, h⟩ := returns_bind_ok_iff.mp h
  obtain ⟨s, p₂, hget, hcompare⟩ := returns_bind_ok_iff.mp h
  split at hcompare
  · next hsame => exact reportable_of_eqIgnoreAsciiCase hsame (password_of_returns hget)
  · cases hcompare

/-- **What can be provisioned.** `provision` can return without an error exactly when the password
asked for, if there is one, is empty or 8 hex digits that are not all `0`. Then a radio that keeps
its settings, whatever they are, can make it do so. -/
theorem provision_possible_iff (q : Request) :
    ((∃ port stdin handler stops p,
      Returns (provision q.address q.net q.cpin q.band q.params)
        (.start port stdin handler stops) (.ok ()) p) ↔
      ∀ password, q.cpin = some password → password = "" ∨ IsPassword password) ∧
    ((∀ s₀, ∃ port, ∀ stdin handler stops, ∃ p ls e,
      Returns (provision q.address q.net q.cpin q.band q.params)
        (.start port stdin handler stops) (.ok ()) p ∧
      Path (Device.Happens Settings.Store) (World.init, s₀) ls e ∧ (∀ l ∈ ls, l.Clean) ∧
      ls.filterMap Label.call? = p.calls) ↔
      ∀ password, q.cpin = some password → password = "" ∨ IsPassword password) := by
  have hpassword {p p' : Process} (h : Returns (provision q.address q.net q.cpin q.band q.params) p
      (.ok ()) p') : ∀ password, q.cpin = some password → password = "" ∨ IsPassword password := by
    intro password hcpin
    rw [provision_eq] at h
    obtain ⟨_, p₁, -, h⟩ := returns_bind_ok_iff.mp h
    obtain ⟨_, p₂, -, h⟩ := returns_bind_ok_iff.mp h
    obtain ⟨_, p₃, hverify, -⟩ := returns_bind_ok_iff.mp h
    exact password_of_verify hcpin hverify
  have hreportable (h : ∀ password, q.cpin = some password → password = "" ∨ IsPassword password) :
      q.Reportable := by
    rintro α (_ | _ | _ | _ | _) v hask
    · trivial
    · trivial
    · trivial
    · exact h v hask
    · trivial
  let s₀ : Settings := ⟨0, 18, 915000000, "", ⟨9, 7, 1, 12⟩, 22, "", ""⟩
  refine ⟨⟨?_, fun h => ?_⟩, fun h => ?_, fun h s₀ => exists_provisioned (hreportable h) s₀⟩
  · rintro ⟨port, stdin, handler, stops, p, hreturns⟩
    exact hpassword hreturns
  · obtain ⟨port, hport⟩ := exists_provisioned (hreportable h) s₀
    obtain ⟨p, -, -, hreturns, -⟩ := hport (.ok []) (.ok ()) []
    exact ⟨port, .ok [], .ok (), [], p, hreturns⟩
  · obtain ⟨port, hport⟩ := h s₀
    obtain ⟨p, -, -, hreturns, -⟩ := hport (.ok []) (.ok ()) []
    exact hpassword hreturns

end

end Rylr998.Tool
