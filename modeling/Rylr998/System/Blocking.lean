import Rylr998.Host.Equiv.Custody
import Rylr998.Host.Equiv.Handler
import Rylr998.System.InOrder
import Rylr998.System.Sequential

/-!
# The radios that return the answer themselves

A session with the blocking radio or with the one for microcontrollers: one method after the other,
some of which give up before the answer of the radio has come. As long as the run is clean, a
command method that returns with a response returns the answer to its own command all the same, the
last one that the radio has given (`std_agreement`, `embassy_agreement`).

A message that comes while a command method of the latter runs is logged, one that comes during
`next_event` is handed to its handler: each is one or the other, and in a clean run none is lost
(`logged_or_heard`).
-/

namespace Rylr998

open Labelled

section

variable [Target]

/-- The radio has answered the commands `cmds`, in order, and then `cmd` with `r`. -/
def World.AnsweredLast (w : World) (cmds : List Command) (cmd : Command) (r : Response) : Prop :=
  ∃ before, w.answered = before ++ [(cmd, r)] ∧ before.map Prod.fst = cmds

theorem World.Inv.accepted_of_idle {w : World} (h : w.Inv) (hidle : w.driver.state = .idle) :
    w.accepted = w.answered.map Prod.fst := by
  obtain ⟨ahead, hanswered, -, hahead⟩ := h.answered_eq
  rw [hanswered, hahead hidle, List.append_nil, List.map_fst_zip]
  exact Nat.le_of_eq (h.idle_iff.mp hidle).symm

/-- When the calls that come behind `calls` accept one command, while nothing is in flight, and end
with a response, then it is the answer to this command. -/
theorem answeredLast_of_ends {α : Type} {want : Response → Option α} {out : α} {cmd : Command}
    {ls : List Label} {w : World} {calls calls' : List Call} {d : Driver}
    (hpath : Path World.Moves World.init ls w) (hls : ls.filterMap Label.call? = calls ++ calls')
    (hcalls : Driver.new.Calls calls d) (hidle : d.state = .idle) (hacc : accepted calls' = [cmd])
    (hends : Ends want calls' (some out)) :
    ∃ r, want r = some out ∧ w.AnsweredLast (accepted calls) cmd r := by
  obtain ⟨w₁, ⟨ls₁, hpath₁, rfl⟩, ls₂, hpath₂, rfl⟩ :=
    Seen.append_inv (f := Label.call?) ⟨ls, hpath, hls⟩
  have hsince₁ := World.since_of_path hpath₁
  have hsince₂ := World.since_of_path hpath₂
  have hinv₁ := World.inv_init.of_path hpath₁
  have hdriver : w₁.driver = d := Driver.Calls.unique hsince₁.driver hcalls
  have hidle₁ : w₁.driver.state = .idle := hdriver ▸ hidle
  obtain ⟨rs, r, hrs, hr, -⟩ := hends
  obtain ⟨hle, hiff, ahead, hanswers, hahead⟩ :=
    hsince₂.answers_eq hinv₁ (hinv₁.of_path hpath₂) hidle₁
  rw [hacc, hrs, List.length_append, List.length_singleton, List.length_singleton] at hle
  obtain rfl : rs = [] := List.length_eq_zero_iff.mp (by omega)
  rw [hacc, hrs] at hiff hanswers
  refine ⟨r, hr, w₁.answered, ?_, ?_⟩
  · rw [hsince₂.answered, hanswers, hahead (hiff.mpr rfl)]
    rfl
  · rw [← hinv₁.accepted_of_idle hidle₁]
    exact hsince₁.accepted

/-! ### The blocking radio -/

/-- **Agreement for the blocking radio.** After any clean session, a command method fails by itself,
or it returns the answer of the radio to its own command. -/
theorem std_agreement {port : Std.Port} {ms : List Std.Method} {dones : List Std.Done}
    {radio radio' : Std.Radio} {α : Type} {cmd : Command} {timeout : Nat}
    {want : Response → Option (Except Std.Error α)} {out : Except Std.Error α} {ls : List Label}
    {w : World} (hrun : Component.run Std.Radio.perform (.fromPort port) ms = .ok (dones, radio))
    (h : radio.command cmd timeout want = .ok (out, radio'))
    (hpath : Path World.Happens World.init ls w) (hclean : ∀ l ∈ ls, l.Clean)
    (hls : ls.filterMap Label.call? =
      dones.flatMap Std.Done.calls ++ radio.commandCalls cmd timeout want) :
    (∃ e, out = .error e ∧ ∀ code, e ≠ .radio code) ∨
      ∃ r, want r = some out ∧ w.AnsweredLast (accepted (dones.flatMap Std.Done.calls)) cmd r := by
  have hmoves := World.moves_of_clean hpath hclean
  rcases Std.Radio.command_ends h with ⟨hidle, hacc, hends⟩ | hfails
  · exact Or.inr (answeredLast_of_ends hmoves hls (Std.Radio.run_calls hrun).1 hidle hacc hends)
  · exact Or.inl hfails

/-! ### The radio for microcontrollers -/

namespace Embassy

variable {ε : Type}

omit [Target] in
/-- The handler, with a record of the events that it is called with. -/
def recording {σ β : Type} (handler : σ → Event → Option β × σ) (p : σ × List Event)
    (e : Event) : Option β × σ × List Event :=
  ((handler p.1 e).1, (handler p.1 e).2, p.2 ++ [e])

omit [Target] in
/-- When no event is left, the record has them all. -/
theorem heed_recording {σ β : Type} {handler : σ → Event → Option β × σ} {s s' : σ}
    {seen seen' es : List Event} {r : Option β}
    (h : heed (recording handler) (s, seen) es = (r, (s', seen'), [])) : seen' = seen ++ es := by
  induction es generalizing s seen with
  | nil =>
    cases h
    exact (List.append_nil _).symm
  | cons e es ih =>
    rcases hone : handler s e with ⟨_ | r', s₁⟩
    · have hrec : recording handler (s, seen) e = (none, s₁, seen ++ [e]) := by
        rw [recording, hone]
      rw [heed_of_none hrec] at h
      rw [ih h, List.append_assoc, List.singleton_append]
    · have hrec : recording handler (s, seen) e = (some r', s₁, seen ++ [e]) := by
        rw [recording, hone]
      rw [heed_of_some hrec] at h
      cases h
      rfl

/-- A call of a method, with the calls of the driver that it makes and the events that it logs or
hands to its handler. -/
inductive Radio.Does : Radio ε → List Call × List Event → Radio ε → Prop
  | command {α : Type} {cmd : Command} {timeout : Nat}
    {want : Response → Option (Except (Error ε) α)} {r : Except (Error ε) α}
    {radio radio' : Radio ε} {logged : List Event} :
    radio.command cmd timeout want = .ok (r, radio') → radio'.log = radio.log ++ logged →
    Does radio (radio.commandCalls cmd timeout want, logged) radio'
  | nextEvent {σ β : Type} {handler : σ → Event → Option β × σ} {timeout : Nat} {s s' : σ}
    {r : Except (Error ε) β} {radio radio' : Radio ε} {calls : List Call} {seen : List Event} :
    radio.Listens (recording handler) timeout (s, []) calls r (s', seen) radio' →
    Does radio (calls, seen) radio'

theorem Radio.Does.calls {radio radio' : Radio ε} {done : List Call × List Event}
    (h : Does radio done radio') : radio.driver.Calls done.1 radio'.driver ∧
      done.1.filterMap Call.event? = done.2 := by
  cases h with
  | command h hlog =>
    obtain ⟨hcalls, hevents⟩ := command_calls h
    exact ⟨hcalls, List.append_cancel_left (hevents.symm.trans hlog)⟩
  | nextEvent h =>
    obtain ⟨now, clock, heard, -, hmakes, -, hstate, rfl⟩ := h
    obtain ⟨hcalls, -, hheed⟩ := hmakes.spec
    rw [← hstate] at hheed
    exact ⟨hcalls, (heed_recording hheed).symm⟩

theorem Radio.calls_of_path {radio radio' : Radio ε} {dones : List (List Call × List Event)}
    (h : Path Does radio dones radio') :
    radio.driver.Calls (dones.flatMap Prod.fst) radio'.driver ∧
      (dones.flatMap Prod.fst).filterMap Call.event? = dones.flatMap Prod.snd := by
  induction h with
  | nil => exact ⟨.nil, rfl⟩
  | cons hstep _ ih =>
    obtain ⟨hcalls, hevents⟩ := hstep.calls
    obtain ⟨hcalls', hevents'⟩ := ih
    refine ⟨hcalls.append hcalls', ?_⟩
    rw [List.flatMap_cons, List.flatMap_cons, List.filterMap_append, hevents, hevents']

end Embassy

/-- **Agreement for the radio for microcontrollers.** After any clean session, a command method
fails by itself, or it returns the answer of the radio to its own command. -/
theorem embassy_agreement {ε α : Type} {uart : Embassy.Port ε}
    {dones : List (List Call × List Event)} {radio radio' : Embassy.Radio ε} {cmd : Command}
    {timeout : Nat} {want : Response → Option (Except (Embassy.Error ε) α)}
    {out : Except (Embassy.Error ε) α} {ls : List Label} {w : World}
    (hrun : Path Embassy.Radio.Does (.new uart) dones radio)
    (h : radio.command cmd timeout want = .ok (out, radio'))
    (hpath : Path World.Happens World.init ls w) (hclean : ∀ l ∈ ls, l.Clean)
    (hls : ls.filterMap Label.call? =
      dones.flatMap Prod.fst ++ radio.commandCalls cmd timeout want) :
    (∃ e, out = .error e ∧ ∀ code, e ≠ .radio code) ∨
      ∃ r, want r = some out ∧ w.AnsweredLast (accepted (dones.flatMap Prod.fst)) cmd r := by
  have hmoves := World.moves_of_clean hpath hclean
  rcases Embassy.Radio.command_ends h with ⟨hidle, hacc, hends⟩ | hfails
  · exact Or.inr
      (answeredLast_of_ends hmoves hls (Embassy.Radio.calls_of_path hrun).1 hidle hacc hends)
  · exact Or.inl hfails

end

section

attribute [local instance] Target.host

/-- Two commands, each answered at once. -/
theorem std_agreement_address : ∃ w : World,
    (∃ e : Std.Error, (.ok 7 : Except Std.Error UInt16) = .error e ∧ ∀ code, e ≠ .radio code) ∨
      ∃ r, Std.waitValue (fun | .address n => some n | _ => none) r = some (.ok 7) ∧
        w.AnsweredLast [.ping] .getAddress r := by
  let port : Std.Port :=
    ⟨[.ok (), .ok ()], [.ok atOnce_ping.chunk, .ok atOnce_address.chunk], [0, 0, 0, 0]⟩
  obtain ⟨d, hd, hquiet⟩ := Driver.quiet_new.exchanged atOnce_ping
  obtain ⟨w, hpath, hw, rfl⟩ := World.quiet_init.path_of_exchanged atOnce_ping hd hquiet
  obtain ⟨d', hd', hquiet'⟩ := hw.driver.exchanged atOnce_address
  obtain ⟨w', hpath', -, -⟩ := hw.path_of_exchanged atOnce_address hd' hquiet'
  let radio : Std.Radio := ⟨w.driver, ⟨[.ok ()], [.ok atOnce_address.chunk], [0, 0]⟩, []⟩
  have hping : (Std.Radio.fromPort port).command .ping 1 Std.waitOk = .ok (.ok (), radio) ∧
      (Std.Radio.fromPort port).commandCalls .ping 1 Std.waitOk =
        exchangeCalls .ping (utf8 "+OK") .ok :=
    Std.Radio.command_of_exchanged atOnce_ping hd rfl rfl Nat.one_pos
  let want : Response → Option (Except Std.Error UInt16) :=
    Std.waitValue fun | .address n => some n | _ => none
  have haddress : radio.command .getAddress 1 want = .ok (.ok 7, ⟨d', ⟨[], [], []⟩, []⟩) ∧
      radio.commandCalls .getAddress 1 want =
        exchangeCalls .getAddress (utf8 "+ADDRESS=" ++ utf8 "7") (.address 7) :=
    Std.Radio.command_of_exchanged atOnce_address hd' rfl rfl Nat.one_pos
  have hperform : (Std.Radio.fromPort port).perform (.command Unit .ping 1 Std.waitOk) =
      .ok (⟨none, exchangeCalls .ping (utf8 "+OK") .ok⟩, radio) := by
    rw [← hping.2]
    exact Except.bind_eq_ok.mpr ⟨_, hping.1, rfl⟩
  have hrun := Component.run_cons hperform []
  refine ⟨w', std_agreement hrun haddress.1 ((hpath.append hpath').mono .move) (by decide) ?_⟩
  rw [haddress.2]
  rfl

/-- Two commands, each answered at once. -/
theorem embassy_agreement_address : ∃ w : World,
    (∃ e : Embassy.Error Unit, (.ok 7 : Except (Embassy.Error Unit) UInt16) = .error e ∧
      ∀ code, e ≠ .radio code) ∨
      ∃ r, Embassy.waitValue (fun | .address n => some n | _ => none) r =
          some (.ok 7 : Except (Embassy.Error Unit) UInt16) ∧
        w.AnsweredLast [.ping] .getAddress r := by
  let radio₀ : Embassy.Radio Unit :=
    .new ⟨[.ok (), .ok ()], [.ok atOnce_ping.chunk, .ok atOnce_address.chunk], [0, 0, 0, 0]⟩
  let want : Response → Option (Except (Embassy.Error Unit) UInt16) :=
    Embassy.waitValue fun | .address n => some n | _ => none
  obtain ⟨d, hd, hquiet⟩ := Driver.quiet_new.exchanged atOnce_ping
  obtain ⟨w, hpath, hw, rfl⟩ := World.quiet_init.path_of_exchanged atOnce_ping hd hquiet
  obtain ⟨d', hd', hquiet'⟩ := hw.driver.exchanged atOnce_address
  obtain ⟨w', hpath', -, -⟩ := hw.path_of_exchanged atOnce_address hd' hquiet'
  have hrun : (radio₀.command .ping 1 Embassy.waitOk >>= fun q =>
      (q.2.command .getAddress 1 want).map fun q' => (q'.1, q.2.log,
        radio₀.commandCalls (α := Unit) .ping 1 Embassy.waitOk,
        q.2.commandCalls .getAddress 1 want)) =
      .ok (.ok 7, [], exchangeCalls .ping (utf8 "+OK") .ok,
        exchangeCalls .getAddress (utf8 "+ADDRESS=" ++ utf8 "7") (.address 7)) := by
    decide +kernel
  obtain ⟨⟨r, radio⟩, hping, hrun⟩ := Except.bind_eq_ok.mp hrun
  obtain ⟨⟨out, radio'⟩, haddress, hq⟩ := Except.map_eq_ok.mp hrun
  obtain ⟨hout, hq⟩ := Prod.mk.inj hq
  obtain ⟨hlog, hq⟩ := Prod.mk.inj hq
  obtain ⟨hpingCalls, haddressCalls⟩ := Prod.mk.inj hq
  obtain rfl : out = .ok 7 := hout
  have hdoes : radio₀.Does (exchangeCalls .ping (utf8 "+OK") .ok, []) radio :=
    hpingCalls ▸ .command hping hlog
  refine ⟨w', embassy_agreement (.single hdoes) haddress ((hpath.append hpath').mono .move)
    (by decide) ?_⟩
  rw [haddressCalls]
  rfl

end

end Rylr998
