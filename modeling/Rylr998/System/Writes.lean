import Rylr998.System.Async
import Rylr998.System.Blocking
import Rylr998.Tool.Equiv.Settings

/-!
# Reading a setting back

A radio keeps its settings. A caller who has set one, and then asks for it with any methods in
between that neither set it nor reset the radio, is returned what was set, or an error, in a clean
run. For the radios that return the answer themselves this is about their methods, some of which may
have timed out (`std_read_your_writes`, `embassy_read_your_writes`); for the async radio it is about
the replies of its task, which go on while the callers give up (`async_read_your_writes`).
-/

namespace Rylr998

open Labelled

variable {α : Type}

theorem Setting.reply_injective {k : Setting α} : Function.Injective k.reply := by
  intro a v h
  cases k <;> cases h <;> rfl

/-- What a radio answers when the setting has not been set since. -/
theorem Setting.reply_of_answeredLast {k : Setting α} {v : α} {r : Response} {s₀ s : Settings}
    {w w' : World} {answers : List (Command × Response)} {cmds mid : List Command}
    (hset : w.AnsweredLast cmds (k.setter v) .ok) (hanswers : w'.answered = w.answered ++ answers)
    (hget : w'.AnsweredLast (cmds ++ k.setter v :: mid) k.query r)
    (hpath : Path Settings.Store s₀ w'.answered s)
    (hmid : ∀ cmd ∈ mid, ¬ cmd.Splits ∧ cmd ≠ .factoryReset ∧ ∀ v', cmd ≠ k.setter v')
    (hr : ∀ code, r ≠ .err code) : r = k.reply v := by
  obtain ⟨before, hw, rfl⟩ := hset
  obtain ⟨before', hw', hcmds⟩ := hget
  -- the history up to the setter is one up to the query
  have hbegins : before ++ [(k.setter v, .ok)] <+: before' := by
    have hset : before ++ [(k.setter v, .ok)] <+: w'.answered :=
      hanswers ▸ hw ▸ List.prefix_append _ _
    have hget : before' <+: w'.answered := hw' ▸ List.prefix_append _ _
    refine List.prefix_of_prefix_length_le hset hget ?_
    have hlen := congrArg List.length hcmds
    simp only [List.length_append, List.length_map, List.length_cons, List.length_nil] at hlen ⊢
    omega
  obtain ⟨history, rfl⟩ := hbegins
  rw [List.map_append, List.map_append, List.append_assoc] at hcmds
  obtain rfl : history.map Prod.fst = mid := (List.cons.inj (List.append_cancel_left hcmds)).2
  rw [hw', List.append_assoc, List.append_assoc] at hpath
  refine Settings.reply_of_path (by rwa [List.append_assoc]) (fun l hl => ?_) hr
  obtain ⟨hsplits, hreset, hsetter⟩ := hmid l.1 (List.mem_map_of_mem hl)
  exact ⟨hsplits, fun v' h => hsetter v' (congrArg Prod.fst h),
    fun h => hreset (congrArg Prod.fst h)⟩

/-! ### The radios that return the answer themselves -/

section

variable [Target] {k : Setting α} {v a : α}

/-- A method that makes the calls `method`, behind the calls `calls`, returns with the response
to its command. -/
structure Answered {β : Type} (calls : List Call) (cmd : Command) (want : Response → Option β)
    (method : List Call) (out : β) : Prop where
  idle : ∃ d, Driver.new.Calls calls d ∧ d.state = .idle
  accepted : accepted method = [cmd]
  ends : Ends want method (some out)

theorem Answered.answeredLast {β : Type} {calls method : List Call} {cmd : Command}
    {want : Response → Option β} {out : β} {ls : List Label} {w : World}
    (h : Answered calls cmd want method out) (hpath : Path World.Moves World.init ls w)
    (hls : ls.filterMap Label.call? = calls ++ method) :
    ∃ r, want r = some out ∧ w.AnsweredLast (Rylr998.accepted calls) cmd r := by
  obtain ⟨d, hcalls, hidle⟩ := h.idle
  exact answeredLast_of_ends hpath hls hcalls hidle h.accepted h.ends

/-- A method that sets it and, later, one that asks for it. -/
theorem Setting.read_of_answered {β γ : Type} {want : Response → Option β}
    {want' : Response → Option γ} {out : β} {out' : γ} {calls set mid get : List Call}
    {ls : List Label} {w : World} {s₀ s : Settings}
    (hset : Answered calls (k.setter v) want set out)
    (hget : Answered (calls ++ set ++ mid) k.query want' get out')
    (hok : ∀ r, want r = some out → r = .ok) (hvalue : ∀ r, want' r = some out' → r = k.reply a)
    (hpath : Path (Device.Happens Settings.Store) (World.init, s₀) ls (w, s))
    (hclean : ∀ l ∈ ls, l.Clean)
    (hls : ls.filterMap Label.call? = calls ++ set ++ mid ++ get)
    (hmid : ∀ cmd ∈ accepted mid, cmd ≠ .factoryReset ∧ ∀ v', cmd ≠ k.setter v') : a = v := by
  have hworld : Path World.Happens World.init ls w := hpath.sync_fst
  have hmoves := World.moves_of_clean hworld hclean
  have hsplits := not_splits_of_clean hclean
  rw [hls, accepted_append, accepted_append] at hsplits
  obtain ⟨r', hr', hlast⟩ := hget.answeredLast hmoves hls
  obtain rfl := hvalue r' hr'
  rw [List.append_assoc] at hls
  obtain ⟨w₁, ⟨ls₁, hpath₁, hls₁⟩, ls₂, hpath₂, -⟩ :=
    Seen.append_inv (f := Label.call?) ⟨ls, hmoves, hls⟩
  obtain ⟨r, hr, hfirst⟩ := hset.answeredLast hpath₁ hls₁
  obtain rfl := hok r hr
  rw [accepted_append, accepted_append, hset.accepted, List.append_assoc] at hlast
  refine Setting.reply_injective (Setting.reply_of_answeredLast hfirst
    (World.since_of_path hpath₂).answered hlast (Device.path_answered hpath)
    (fun cmd hcmd => ?_) ?_)
  · refine ⟨hsplits cmd ?_, hmid cmd hcmd⟩
    exact List.mem_append_left _ (List.mem_append_right _ hcmd)
  · intro code h
    cases k <;> cases h

end

namespace Embassy

variable {ε : Type}

/-- The method that sets it. -/
def setMethod [Target] (radio : Radio ε) (tickHz : Nat) :
    Setting α → α → Except Halt (Except (Error ε) Unit × Radio ε)
  | .address, v => radio.setAddress tickHz v
  | .networkId, v => radio.setNetworkId tickHz v
  | .band, v => radio.setBand tickHz v
  | .cpin, v => radio.setCpin tickHz (utf8 v)
  | .parameters, v => radio.setParameters tickHz v

/-- The method that asks for it. -/
def getMethod [Target] (radio : Radio ε) (tickHz : Nat) :
    Setting α → Except Halt (Except (Error ε) α × Radio ε)
  | .address => radio.address tickHz
  | .networkId => radio.networkId tickHz
  | .band => radio.band tickHz
  | .cpin => radio.cpin tickHz
  | .parameters => radio.parameters tickHz

/-- The closure of the method that asks for it. -/
def want : Setting α → Response → Option (Except (Error ε) α)
  | .address => waitValue fun | .address n => some n | _ => none
  | .networkId => waitValue fun | .networkId n => some n | _ => none
  | .band => waitValue fun | .band n => some n | _ => none
  | .cpin => waitCpin
  | .parameters => waitValue fun | .parameters p => some p | _ => none

theorem eq_reply_of_want {k : Setting α} {a : α} {r : Response}
    (h : want k r = some (.ok a : Except (Error ε) α)) : r = k.reply a := by
  cases k with
  | cpin =>
    cases r with
    | cpin s =>
      change (if _ then _ else _) = _ at h
      split_ifs at h <;> cases h
      rfl
    | _ => cases h
  | address | networkId | band | parameters =>
    cases r <;> cases h
    rfl

variable [Target] {radio : Radio ε} {tickHz : Nat}

theorem setMethod_eq (k : Setting α) (v : α) : setMethod radio tickHz k v =
    radio.command (k.setter v) (defaultTimeout tickHz) waitOk := by
  cases k <;> rfl

theorem getMethod_eq (k : Setting α) : getMethod radio tickHz k =
    radio.command k.query (defaultTimeout tickHz) (want k) := by
  cases k <;> rfl

end Embassy

/-! ### The async radio -/

section

attribute [local instance] Target.host

/-- The address is set and asked for. -/
def setAndGet : List Label :=
  exchangeMoves (.setAddress 7) (utf8 "+OK") .ok ++
    exchangeMoves .getAddress (utf8 "+ADDRESS=" ++ utf8 "7") (.address 7)

theorem atOnce_setAddress : AtOnce (.setAddress 7) (utf8 "+OK") .ok :=
  ⟨by decide, by decide, .ok, nofun, by decide, by decide⟩

/-- A radio that answers at once. -/
theorem path_setAndGet : ∃ (w : World) (s₀ s : Settings),
    Path (Device.Happens Settings.Store) (World.init, s₀) setAndGet (w, s) := by
  obtain ⟨d, hd, hquiet⟩ := Driver.quiet_new.exchanged atOnce_setAddress
  obtain ⟨w, hpath, hw, rfl⟩ := World.quiet_init.path_of_exchanged atOnce_setAddress hd hquiet
  obtain ⟨d', hd', hquiet'⟩ := hw.driver.exchanged atOnce_address
  obtain ⟨w', hpath', -, -⟩ := hw.path_of_exchanged atOnce_address hd' hquiet'
  let s : Settings := ⟨0, 18, 915000000, "", ⟨9, 7, 1, 12⟩, 22, "", ""⟩
  have hdev : Path Settings.Store s (setAndGet.filterMap Label.answer?)
      (Setting.address.put s 7) :=
    .cons (Settings.store_setter .address 7 s)
      (.single (Settings.store_query (.setting .address) _))
  exact ⟨w', s, _, ((hpath.append hpath').sync_of hdev).mono Device.Moves.happens⟩

/-- The address is set by a job and asked for by another. -/
def setThenGet : List Tokio.Action :=
  [.request (.setAddress 7), .enqueue, .takeJob, .task .poll, .task (.written (.ok ())),
    .task .poll, .task (.read (.ok atOnce_setAddress.chunk)), .task .poll, .answer,
    .request .getAddress, .enqueue, .takeJob, .task .poll, .task (.written (.ok ())), .task .poll,
    .task (.read (.ok atOnce_address.chunk)), .task .poll, .answer]

end

end Rylr998
