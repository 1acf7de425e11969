import Rylr998.Core.Equiv.Stream
import Rylr998.Tool.Equiv.Runs

/-!
# The script of a command of the tool

Each command of the tool has a list of commands for the radio. However a run returns, the driver has
accepted the first ones of the list, in order and each once, and the bytes that it has handed out
are the first ones of the list's; no command is submitted again after an error or a timeout. When
the run returns without an error all of them have been accepted (`run_follows_script`).
-/

namespace Rylr998.Tool

open Interact Labelled

/-! ### The scripts -/

/-- What `info` submits. -/
def infoCommands : List Command :=
  [.ping, .getAddress, .getNetworkId, .getBand, .getCpin, .getParameters, .getCrfop, .getUid,
    .getVersion]

/-- What `provision` submits for a setting. -/
def Request.script {α : Type} (q : Request) (k : Setting α) : List Command :=
  (q.asks k).toList.flatMap fun v => [k.setter v, k.query]

/-- What `send` submits: the message is the argument, or what is read from the standard input. -/
def sendScript (toAddr : UInt16) (message : String) (stdin : Except ErrorKind (List UInt8)) :
    List Command :=
  if message = "-" then stdin.toOption.toList.map (.send toAddr) else [.send toAddr (utf8 message)]

/-- What a command of the tool submits when nothing fails. -/
def Cmd.script (stdin : Except ErrorKind (List UInt8)) : Cmd → List Command
  | info => infoCommands
  | provision address net cpin band params =>
    let q : Request := ⟨address, net, cpin, band, params⟩
    q.script .address ++ (q.script .networkId ++ (q.script .cpin ++ (q.script .band ++
      q.script .parameters)))
  | reset => [.factoryReset]
  | send toAddr message => sendScript toAddr message stdin
  | listen => []

/-! ### The commands accepted -/

/-- The calls of a running tool, and nothing else. -/
def recorder : Interact.Setting Process (List Call) Call Call where
  trace := Process.calls
  step := record
  shows := some

theorem seen_recorder_iff {log log' calls : List Call} :
    Seen recorder.step recorder.shows log calls log' ↔ log' = log ++ calls := by
  have hshows (ls : List Call) : ls.filterMap recorder.shows = ls := List.filterMap_some
  constructor
  · rintro ⟨ls, hpath, rfl⟩
    rw [hshows]
    exact Path.record_iff.mp hpath
  · intro h
    exact ⟨calls, Path.record_iff.mpr h, hshows calls⟩

theorem stable_recorder (P : Process → List Call → Prop) : Stable recorder P := by
  constructor
  intro p log log' h hseen
  rwa [seen_recorder_iff.mp hseen, List.append_nil]

/-- A program of which the calls are known. -/
theorem triple_recorder {α : Type} {P : Process → List Call → Prop} {x : ToolM α}
    {Q : Except Error α → Process → List Call → Prop}
    (h : ∀ {p r p'}, Returns x p r p' →
      ∃ calls, p'.calls = p.calls ++ calls ∧ ∀ log, P p log → Q r p' (log ++ calls)) :
    Triple recorder P x Q where
  grows := by
    intro p r p' hx
    obtain ⟨calls, hcalls, -⟩ := h hx
    exact ⟨calls, hcalls.symm⟩
  post := by
    intro p r p' log log' actions hlog hx hactions hseen
    obtain ⟨calls, hcalls, hQ⟩ := h hx
    obtain rfl : calls = actions := List.append_cancel_left (hcalls.symm.trans hactions)
    rw [seen_recorder_iff.mp hseen]
    exact hQ log hlog

/-- The commands accepted are `sofar` and the first ones of `script`, and all of it when the program
returns without an error. -/
def Got {α : Type} (sofar script : List Command) (r : Except Error α) (_ : Process)
    (log : List Call) : Prop :=
  ∃ done, accepted log = sofar ++ done ∧ done <+: script ∧ ∀ a, r = .ok a → done = script

/-- The program gets the commands of `script` accepted. -/
def Follows {α : Type} (script : List Command) (x : ToolM α) : Prop :=
  ∀ sofar, Triple recorder (fun _ log => accepted log = sofar) x (Got sofar script)

namespace Follows

variable {α β : Type} {script script' : List Command} {x : ToolM α}

theorem of_calls (h : ∀ {p r p'}, Returns x p r p' → ∃ calls, p'.calls = p.calls ++ calls ∧
    accepted calls <+: script ∧ ∀ a, r = .ok a → accepted calls = script) : Follows script x := by
  refine fun sofar => triple_recorder fun hx => ?_
  obtain ⟨calls, hcalls, hscript⟩ := h hx
  refine ⟨calls, hcalls, fun log hlog => ⟨accepted calls, ?_, hscript⟩⟩
  rw [accepted_append, hlog]

/-- A program that makes no calls. -/
theorem of_silent (h : ∀ {p r p'}, Returns x p r p' → p'.calls = p.calls) : Follows [] x :=
  of_calls fun hx => ⟨[], (h hx).trans (List.append_nil _).symm, List.prefix_refl _, fun _ _ => rfl⟩

theorem pure (a : α) : Follows [] (Pure.pure a : ToolM α) :=
  of_silent fun h => by rw [(returns_pure_iff.mp h).2]

theorem throw (e : Error) : Follows [] (MonadExcept.throw e : ToolM α) :=
  of_silent fun h => by rw [(returns_throw_iff.mp h).2]

theorem ask (f : Process → Except Error α) : Follows [] (Interact.ask f : ToolM α) :=
  of_silent fun h => by rw [(returns_ask_iff.mp h).2]

theorem printLine (line : Line) : Follows [] (printLine line) :=
  of_silent fun h => by rw [(returns_modify_iff.mp h).2]

theorem bind {f : α → ToolM β} (hx : Follows script x) (hf : ∀ a, Follows script' (f a)) :
    Follows (script ++ script') (x >>= f) := by
  intro sofar
  refine (hx sofar).bind (fun a => (hf a (sofar ++ script)).weaken ?_ ?_) ?_
  · rintro p log ⟨done, hlog, -, hall⟩
    rw [hlog, hall a rfl]
  · rintro r p log ⟨done, hlog, hbegins, hall⟩
    refine ⟨script ++ done, by rw [hlog, List.append_assoc], ?_, fun b hb => by rw [hall b hb]⟩
    exact (List.prefix_append_right_inj script).mpr hbegins
  · rintro e p log ⟨done, hlog, hbegins, -⟩
    exact ⟨done, hlog, hbegins.trans (List.prefix_append _ _), nofun⟩

/-- An error of a program that gets nothing accepted is caught. -/
theorem attempt (hx : Follows [] x) : Follows [] (Interact.attempt x) := by
  intro sofar
  refine (hx sofar).attempt.weaken id ?_
  rintro r p log ⟨r₀, rfl, done, hlog, hbegins, -⟩
  exact ⟨done, hlog, hbegins, fun _ _ => List.prefix_nil.mp hbegins⟩

variable [Target]

theorem command (m : CommandMethod α) : Follows [m.command] (command m) := by
  refine of_calls fun h => ?_
  obtain ⟨out, radio, hcommand, rfl, rfl⟩ := returns_command_iff.mp h
  refine ⟨_, rfl, ?_⟩
  cases Std.Radio.command_spec hcommand with
  | refused _ hcalls =>
    rw [CommandMethod.calls, hcalls]
    exact ⟨List.nil_prefix, nofun⟩
  | answered _ hacc | gaveUp hacc => exact ⟨hacc ▸ List.prefix_refl _, fun _ _ => hacc⟩

theorem nextEvent (timeout : Nat) : Follows [] (nextEvent timeout) := by
  refine of_calls fun h => ?_
  obtain ⟨out, radio, hcall, rfl, rfl⟩ := returns_nextEvent_iff.mp h
  have hnone := Std.Radio.nextEvent_accepted hcall
  exact ⟨_, rfl, hnone ▸ List.prefix_refl _, fun _ _ => hnone⟩

/-- Print what a command method returns. -/
theorem showAll (m : CommandMethod α) (line : α → Line) {rest : ToolM Unit}
    (h : Follows script rest) : Follows (m.command :: script)
      (Tool.command m >>= fun a => Tool.printLine (line a) >>= fun _ => rest) :=
  (command m).bind fun a => (printLine (line a)).bind fun _ => h

theorem setAndVerify (k : Setting α) (v : α) :
    Follows [k.setter v, k.query]
      (setAndVerify (k.setMethod v) (Reading.setting k).method (k.same · v) k.field) := by
  have hcompare (a : α) : Follows [] (if k.same a v = true then Pure.pure () else
      MonadExcept.throw (verifyFailed k.field) : ToolM Unit) := by
    split
    · exact pure ()
    · exact throw _
  have hset := command (k.setMethod v)
  have hget := command (Reading.setting k).method
  rw [k.setMethod_command] at hset
  rw [Reading.method_command] at hget
  exact hset.bind fun _ => hget.bind hcompare

theorem verify (q : Request) (k : Setting α) : Follows (q.script k) (q.verify k) := by
  unfold Request.script Request.verify
  cases q.asks k with
  | none => exact pure ()
  | some v => exact setAndVerify k v

end Follows

section

variable [Target]

theorem listenLoop_follows (stops : List Bool) : Follows [] (listenLoop stops) := by
  induction stops with
  | nil => exact fun _ => ⟨(nomatch ·), fun _ h => nomatch h⟩
  | cons stop stops ih =>
    cases stop with
    | true => exact .pure ()
    | false =>
      have hheard (r : Except Error Event) : Follows [] (heard r) := by
        unfold heard
        split
        · exact .printLine _
        · exact .printLine _
        · exact .pure ()
        · exact .throw _
      exact (Follows.attempt (.nextEvent _)).bind fun r => (hheard r).bind fun _ => ih

/-- At the start a ping is accepted, whatever becomes of it. -/
theorem attempt_ping : Triple recorder
    (fun p log => p.radio.driver = .new ∧ accepted log = []) (attempt (command .ping))
      fun r _ log => (∃ r₀, r = .ok r₀) ∧ accepted log = [.ping] := by
  refine triple_recorder fun {p r p'} h => ?_
  obtain ⟨r₀, rfl, hping⟩ := returns_attempt_iff.mp h
  obtain ⟨out, radio, hcommand, -, rfl⟩ := returns_command_iff.mp hping
  refine ⟨_, rfl, fun log hlog => ⟨⟨r₀, rfl⟩, ?_⟩⟩
  obtain ⟨hnew, hlog⟩ := hlog
  rw [accepted_append, hlog, List.nil_append]
  cases Std.Radio.command_spec hcommand with
  | answered _ hacc | gaveUp hacc => exact hacc
  | refused hsubmit =>
    have hfit : Driver.new.tx.len + (wire .ping).length ≤ txBuf := by decide
    rw [hnew] at hsubmit
    cases (Driver.submit_accept rfl hfit).symm.trans hsubmit

theorem info_follows : Triple recorder
    (fun p log => p.radio.driver = .new ∧ accepted log = []) info (Got [] infoCommands) := by
  have hrest (r : Except Error Unit) : Follows infoCommands.tail (do
      printLine (.ping (marker r))
      printLine (.address (← command .address))
      printLine (.networkId (← command .networkId))
      printLine (.band (← command .band))
      printLine (.cpin (← command .cpin))
      printLine (.parameters (← command .parameters))
      printLine (.crfop (← command .crfop))
      printLine (.uid (← command .uid))
      printLine (.version (← command .version))) :=
    (Follows.printLine _).bind fun _ => .showAll .address _ <| .showAll .networkId _ <|
      .showAll .band _ <| .showAll .cpin _ <| .showAll .parameters _ <| .showAll .crfop _ <|
      .showAll .uid _ <| (Follows.command .version).bind fun _ => .printLine _
  refine attempt_ping.bind (fun r => (hrest r [.ping]).weaken And.right ?_) ?_
  · rintro r p log ⟨done, hlog, hbegins, hall⟩
    exact ⟨.ping :: done, hlog, List.cons_prefix_cons.mpr ⟨rfl, hbegins⟩,
      fun a ha => congrArg (Command.ping :: ·) (hall a ha)⟩
  · rintro e p log ⟨⟨r₀, h⟩, -⟩
    cases h

theorem send_follows (toAddr : UInt16) (message : String) (stdin : Except ErrorKind (List UInt8)) :
    Triple recorder (fun p log => p.stdin = stdin ∧ accepted log = []) (send toAddr message)
      (Got [] (sendScript toAddr message stdin)) := by
  have hsend (bytes : List UInt8) : Follows [.send toAddr bytes]
      (command (.send toAddr bytes) >>= fun _ => printLine .sent) :=
    (Follows.command (.send toAddr bytes)).bind fun _ => .printLine .sent
  unfold send sendScript
  split_ifs
  · let read : Except Error (List UInt8) := stdin.mapError fun e => .std (.io e)
    have hask : Triple recorder (fun p log => p.stdin = stdin ∧ accepted log = [])
        (ask fun p => p.stdin.mapError fun e => .std (.io e) : ToolM (List UInt8))
        fun r _ log => r = read ∧ accepted log = [] :=
      (Triple.ask (fun _ => stable_recorder _) _).weaken (fun h => ⟨congrArg _ h.1, h.2⟩) id
    refine hask.bind (fun bytes => (hsend bytes []).assuming fun hread => ?_) ?_
    · rw [Except.mapError_eq_ok.mp hread.symm]
      exact hsend bytes []
    · rintro e p log ⟨-, hlog⟩
      exact ⟨[], hlog, List.nil_prefix, nofun⟩
  · rw [pure_bind]
    exact (hsend (utf8 message) []).weaken And.right id

/-- How a command of the tool starts. -/
def Starting (stdin : Except ErrorKind (List UInt8)) (p : Process) (log : List Call) : Prop :=
  p.radio.driver = .new ∧ p.stdin = stdin ∧ accepted log = []

/-- However a command of the tool ends, it has followed its script. -/
theorem Cmd.follows (c : Cmd) (stdin : Except ErrorKind (List UInt8)) :
    Triple recorder (Starting stdin) c.run (Got [] (c.script stdin)) := by
  have hfollows {script : List Command} {x : ToolM Unit} (h : Follows script x) :
      Triple recorder (Starting stdin) x (Got [] script) :=
    (h []).weaken (fun hstart => hstart.2.2) id
  cases c with
  | info => exact info_follows.weaken (fun hstart => ⟨hstart.1, hstart.2.2⟩) id
  | provision address net cpin band params =>
    show Triple _ _ (Tool.provision address net cpin band params) _
    rw [show Tool.provision address net cpin band params = _ from
      provision_eq ⟨address, net, cpin, band, params⟩]
    have hverify {α : Type} (k : Setting α) := Follows.verify ⟨address, net, cpin, band, params⟩ k
    refine hfollows ?_
    have hlast := (hverify .parameters).bind fun _ =>
      .printLine (.provisioned address net cpin band params)
    rw [List.append_nil] at hlast
    exact (hverify .address).bind fun _ => (hverify .networkId).bind fun _ =>
      (hverify .cpin).bind fun _ => (hverify .band).bind fun _ => hlast
  | reset => exact hfollows (.command .factoryReset)
  | send toAddr message => exact (send_follows toAddr message stdin).weaken And.right id
  | listen =>
    exact hfollows ((Follows.ask _).bind fun _ => (Follows.ask _).bind fun stops =>
      listenLoop_follows stops)

/-- What a run of the tool gets accepted. -/
theorem Cmd.accepted_of_returns {c : Cmd} {port : Std.Port} {stdin : Except ErrorKind (List UInt8)}
    {handler : Except String Unit} {stops : List Bool} {p : Process} {r : Except Error Unit}
    (h : Returns c.run (.start port stdin handler stops) r p) :
    accepted p.calls <+: c.script stdin ∧ (r = .ok () → accepted p.calls = c.script stdin) := by
  have hlog : Seen recorder.step recorder.shows [] p.calls p.calls := seen_recorder_iff.mpr rfl
  have hstart : Starting stdin (.start port stdin handler stops) [] := ⟨rfl, rfl, rfl⟩
  obtain ⟨done, hdone, hbegins, hall⟩ := (c.follows stdin).post hstart h rfl hlog
  obtain rfl : accepted p.calls = done := hdone
  exact ⟨hbegins, hall ()⟩

/-! ### The bytes handed out -/

/-- The calls noted are calls of the driver, one after the other. -/
def Noted (p : Process) (log : List Call) : Prop := Driver.new.Calls log p.radio.driver

theorem Cmd.kept_noted (c : Cmd) : c.Kept recorder Noted where
  stable := stable_recorder _
  command m := triple_recorder fun h => by
    obtain ⟨out, radio, hcommand, -, rfl⟩ := returns_command_iff.mp h
    exact ⟨_, rfl, fun log hlog => hlog.append (Std.Radio.command_calls hcommand).1⟩
  print _ := .modify (stable_recorder _) (fun _ => rfl) id
  hear _ := by
    have hnext : Keeps recorder Noted (Tool.nextEvent 1000000000) := triple_recorder fun h => by
      obtain ⟨out, radio, hcall, -, rfl⟩ := returns_nextEvent_iff.mp h
      exact ⟨_, rfl, fun log hlog => hlog.append (Std.Radio.nextEvent_calls hcall).1⟩
    refine .bind hnext.attempt fun r => ?_
    unfold heard
    split
    · exact .modify (stable_recorder _) (fun _ => rfl) id
    · exact .modify (stable_recorder _) (fun _ => rfl) id
    · exact .pure (stable_recorder _) ()
    · exact .throw (stable_recorder _) _

/-- **The tool follows its script.** However a command of the tool returns, it has got the first
commands of its script accepted, in order and each once, and all of them when it returns without an
error; the bytes handed to the port are the first ones of the script. -/
theorem run_follows_script {c : Cmd} {port : Std.Port} {stdin : Except ErrorKind (List UInt8)}
    {handler : Except String Unit} {stops : List Bool} {p : Process} {r : Except Error Unit}
    (h : Returns c.run (.start port stdin handler stops) r p) :
    accepted p.calls <+: c.script stdin ∧
      handedOut p.calls <+: (c.script stdin).flatMap wire ∧
      (r = .ok () → accepted p.calls = c.script stdin) := by
  obtain ⟨hbegins, hall⟩ := Cmd.accepted_of_returns h
  refine ⟨hbegins, ?_, hall⟩
  have hlog : Seen recorder.step recorder.shows [] p.calls p.calls := seen_recorder_iff.mpr rfl
  have hstart : Noted (.start port stdin handler stops) [] := Driver.Calls.nil
  obtain ⟨ops, hrun⟩ := (Cmd.keeps c.kept_noted).post hstart h rfl hlog
  obtain ⟨rest, hscript⟩ := hbegins
  rw [← hscript, List.flatMap_append, ← handedOut_eq hrun, List.append_assoc]
  exact List.prefix_append _ _

end

section

attribute [local instance] Target.host

/-- A radio that is provisioned with an address and a network. -/
theorem run_follows_script_provision : ∃ p : Process,
    let script : List Command := [.setAddress 5, .getAddress, .setNetworkId 18, .getNetworkId]
    accepted p.calls = script ∧ handedOut p.calls <+: script.flatMap wire := by
  have hq : (⟨5, 18, none, none, none⟩ : Request).Reportable := by
    rintro α (_ | _ | _ | _ | _) v h <;> cases h <;> trivial
  obtain ⟨port, h⟩ := exists_provisioned hq ⟨0, 18, 915000000, "", ⟨9, 7, 1, 12⟩, 22, "", ""⟩
  obtain ⟨p, -, -, hreturns, -⟩ := h (.ok []) (.ok ()) []
  have hscript := run_follows_script (c := .provision 5 18 none none none) hreturns
  exact ⟨p, hscript.2.2 rfl, hscript.2.1⟩

end

end Rylr998.Tool
