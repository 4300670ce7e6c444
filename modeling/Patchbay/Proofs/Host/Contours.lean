import Patchbay.Proofs.Host.Extension
import Patchbay.Proofs.Clock.NoPast

namespace Patchbay

open Act

namespace Engine

variable {engine : Engine} {host : HostId} {param : Param}

theorem schedule_taken (h : engine.admits (.param host param) = true) (event : Automation) :
    engine.schedule host param event = .ok (engine.extend [.schedule host param event] []) := by
  rw [admits, param?_eq] at h
  obtain ⟨node, hnode, hhas⟩ := (Option.any_eq_true _ _).1 h
  simp only [schedule, find_eq_ok.2 hnode]
  change (if (!node.hasParam param) = true then _ else _) = _
  rw [hhas, ← record_eq]
  rfl

theorem admits_logged (calls : List HostCall) (endpoint : Endpoint) :
    (engine.extend calls []).admits endpoint = engine.admits endpoint := by
  have hnodes : (engine.extend calls []).nodes = engine.nodes := by simp [extend]
  cases endpoint with
  | node host => rw [admits, inputs, hnodes, ← inputs, ← admits]
  | param host param => rw [admits, param?, hnodes, ← param?, ← admits]

-- Why a host follows no curve of a parameter that it does not have.
def refusal (engine : Engine) (host : HostId) (param : Param) : HostFault :=
  if engine.nodes[host]?.isSome then .noParam host param else .unknownNode host

theorem schedule_refused (h : engine.admits (.param host param) = false) (event : Automation) :
    engine.schedule host param event = .error (engine.refusal host param) := by
  rw [admits, param?_eq] at h
  unfold schedule find refusal
  cases hnode : engine.nodes[host]? with
  | none => rfl
  | some node =>
      rw [hnode, Option.any_some] at h
      change (if (!node.hasParam param) = true then _ else _) = _
      rw [h]
      rfl

end Engine

namespace Contour

-- When the `i`th stage ends: the durations up to its own are added from the first on.
def stageEnd (start : Float) (stages : List Stage) (i : Nat) : Float :=
  (stages.take (i + 1)).foldl (fun time stage => time + stage.duration) start

-- What a host logs that follows the stages from `start` on.
def calls (host : HostId) (param : Param) (start : Float) (stages : List Stage) : List HostCall :=
  stages.mapIdx fun i (stage : Stage) => .schedule host param {
    curve := stage.curve
    value := if stage.curve = .exponential ∧ stage.value == 0 then (1e-5 : Float) else stage.value
    time := stageEnd start stages i }

variable {host : HostId} {param : Param} {start : Float}

theorem target_eq (stage : Stage) : stage.target =
    if stage.curve = .exponential ∧ stage.value == 0 then (1e-5 : Float) else stage.value := by
  have hfloor : Stage.floor = 1e-5 := by decide +kernel
  simp [Stage.target, hfloor]

theorem calls_cons (stage : Stage) (rest : List Stage) :
    calls host param start (stage :: rest) =
      .schedule host param ⟨stage.curve, stage.target, start + stage.duration⟩ ::
        calls host param (start + stage.duration) rest := by
  rw [calls, List.mapIdx_cons, target_eq]
  rfl

theorem scheduleStages_taken {s : Studio} {c : ContextId} (hc : c < s.engines.size)
    (h : (s.engine c).admits (.param host param) = true) (start : Float) (stages : List Stage) :
    scheduleStages c host param start stages s =
      .ok () (s.extend c (calls host param start stages) []) := by
  induction stages generalizing s start with
  | nil =>
      rw [calls, List.mapIdx_nil, s.extend_nil]
      rfl
  | cons stage rest ih =>
      let event : Automation := ⟨stage.curve, stage.target, start + stage.duration⟩
      let next := s.extend c [.schedule host param event] []
      have hfirst : Act.host c (·.schedule host param event) s = .ok () next :=
        host_extend (Engine.schedule_taken h event)
      have hnext : (next.engine c).admits (.param host param) = true := by
        rwa [s.engine_extend hc, Engine.admits_logged]
      have hrest := ih (s := next) (by rwa [s.contexts_extend]) hnext (start + stage.duration)
      rw [scheduleStages, run_bind hfirst, hrest, s.extend_extend, calls_cons]
      rfl

-- Only a host that is there has a parameter.
theorem opened_of_admits {s : Studio} {c : ContextId}
    (h : (s.engine c).admits (.param host param) = true) : c < s.engines.size := by
  by_contra hc
  have hengine : s.engine c = .new 0 := by
    rw [Studio.engine, Array.getElem?_eq_none (Nat.not_lt.1 hc), Option.getD_none]
  rw [hengine, Engine.admits, Engine.param?_eq] at h
  obtain ⟨node, hnode, hhas⟩ := (Option.any_eq_true _ _).1 h
  obtain rfl : node = .ofKind none := by
    simpa [Engine.new] using Array.mem_of_getElem? hnode
  simp [HostNode.hasParam, HostNode.params, HostNode.ofKind] at hhas

-- All of it or nothing.
theorem schedule_eq (contour : Contour) (s : Studio) (c : ContextId) (host : HostId) (param : Param)
    (time : Float) : contour.schedule c host param time s =
      if (s.engine c).admits (.param host param) then
        .ok () (s.extend c (calls host param (Time.resolve (some time) none (s.now c))
          contour.stages) [])
      else if contour.isEmpty then .ok () s
      else .error (.host ((s.engine c).refusal host param)) s := by
  have hnow : Act.now c s = .ok (s.now c) s := rfl
  rw [schedule, run_bind hnow]
  split
  case isTrue h => exact scheduleStages_taken (opened_of_admits h) h _ _
  case isFalse h =>
      obtain ⟨stages, hsound⟩ := contour
      cases stages with
      | nil => rfl
      | cons stage rest =>
          rw [scheduleStages]
          exact bind_of_error (host_error (Engine.schedule_refused (Bool.eq_false_iff.2 h) _))

end Contour

-- A parameter is to reach zero along an exponential, which no exponential does.
def HostCall.Dives : HostCall → Prop
  | .schedule _ _ event => event.curve = .exponential ∧ event.value == 0
  | .create _ _ | .connect _ _ | .disconnect _ | .start _ _ | .stop _ _ | .setParam _ _ _
  | .setBuffer _ => False

theorem HostCall.not_dives_of_untimed {call : HostCall} (h : call.time? = none) : ¬call.Dives := by
  cases call <;> first | exact id | cases h

theorem Contour.not_dives {host : HostId} {param : Param} {start : Float} {stages : List Stage} :
    ∀ call ∈ calls host param start stages, ¬call.Dives := by
  intro call hcall
  obtain ⟨i, hi, rfl⟩ := List.mem_mapIdx.1 hcall
  rintro ⟨hcurve, hzero⟩
  dsimp only at hcurve hzero
  split at hzero
  case isTrue => exact absurd hzero (by decide +kernel)
  case isFalse hvalue => exact hvalue ⟨hcurve, hzero⟩

-- No dive is in a log that was not in it before.
def Undived (s t : Studio) : Prop :=
  ∀ c, ∀ call ∈ (t.engine c).calls, call.Dives → call ∈ (s.engine c).calls

namespace Undived

variable {s t : Studio}

instance : IsPreorder Studio Undived where
  refl _ _ _ hcall _ := hcall
  trans _ _ _ h h' c call hcall hdives := h c call (h' c call hcall hdives) hdives

theorem of_calls (h : ∀ c, ∃ calls, (t.engine c).calls.toList = (s.engine c).calls.toList ++ calls ∧
    ∀ call ∈ calls, ¬call.Dives) : Undived s t := by
  intro c call hcall hdives
  obtain ⟨calls, hcalls, hnone⟩ := h c
  rw [← Array.mem_toList_iff, hcalls, List.mem_append] at hcall
  exact Array.mem_toList_iff.1 (hcall.resolve_right fun hnew => hnone call hnew hdives)

theorem of_untimed (s t : Studio) (h : Untimed s t) : Undived s t := by
  refine of_calls fun c => ?_
  obtain ⟨calls, hcalls, huntimed⟩ := h.calls c
  exact ⟨calls, hcalls, fun call hcall => HostCall.not_dives_of_untimed (huntimed call hcall)⟩

theorem of_extend {c : ContextId} {calls : List HostCall} (h : ∀ call ∈ calls, ¬call.Dives)
    (hosts : List HostNode) : Undived s (s.extend c calls hosts) := by
  refine of_calls fun d => ?_
  rw [s.engine_extend_eq]
  split
  case isTrue hc => exact ⟨calls, by rw [hc.1, Engine.extend, Array.toList_append], h⟩
  case isFalse => exact ⟨[], by simp, by simp⟩

instance : Drafts Undived := .of_finer of_untimed

instance : Connects Undived := .of_finer of_untimed

theorem keeps_request (context : ContextId) (request : Request) (h : ¬request.call.Dives) :
    Keeps Undived (Act.host context request.send) := by
  refine fun s => along_host fun engine hsend => ⟨of_calls fun c => ?_, trivial⟩
  rw [s.engine_setEngine]
  split
  case isTrue hc => exact ⟨[request.call], by rw [Request.calls_send hsend, hc.1]; simp, by simpa⟩
  case isFalse => exact ⟨[], by simp, by simp⟩

theorem keeps_schedule (contour : Contour) (context : ContextId) (host : HostId) (param : Param)
    (time : Float) : Keeps Undived (contour.schedule context host param time) := by
  intro s
  unfold Along Ends
  rw [contour.schedule_eq]
  by_cases htaken : (s.engine context).admits (.param host param) = true
  · rw [if_pos htaken]
    exact ⟨of_extend Contour.not_dives [], trivial⟩
  · rw [if_neg htaken]
    cases contour.isEmpty with
    | true => exact ⟨refl_of Undived s, trivial⟩
    | false => exact refl_of Undived s

instance : Times Undived (fun _ _ => True) fun _ => True where
  started id := keeps_modify fun s => of_untimed s _ (.of_change id fun _ => rfl)
  curve := keeps_schedule
  start s context host time _ _ := keeps_request context (.start host time) id s
  stop s node host time _ _ _ _ _ := keeps_request node.context (.stop host time) id s
  lasting _ _ _ _ _ := trivial
  after _ _ _ _ _ := ⟨trivial, fun _ _ => trivial⟩

instance : Paces Undived fun _ _ => True where
  __ := (inferInstance : Drafts Undived)
  __ := (inferInstance : Connects Undived)
  untouched s t h := of_untimed s t (.of_untouched h)
  openContext s rate _ := along_openContext (of_untimed s _ (.of_opened s rate))
  curve := keeps_schedule
  start _ _ _ _ _ _ := Node.timed_start (fun _ _ => trivial) trivial
  stop _ _ _ _ _ _ := Node.timed_stop (fun _ _ => trivial) trivial
  disconnect s node _ _ := (Untimed.keeps_disconnect node).mono of_untimed s
  lasting _ _ _ _ _ := trivial
  present _ _ _ := ⟨trivial, trivial⟩
  after _ _ _ _ _ := trivial

end Undived

-- Each dive in a log is one that a caller has told the host itself.
def Command.Owns (commands : List Command) (s : Studio) : Prop :=
  ∀ c, ∀ call ∈ (s.engine c).calls, call.Dives →
    ∃ request, .request c request ∈ commands ∧ request.call = call

theorem Command.owns_of_undived {commands : List Command} (s t : Studio) (h : Undived s t) :
    Preserves (Owns commands) s t :=
  fun hs c call hcall hdives => hs c call (h c call hcall hdives) hdives

theorem Command.owns_step {commands : List Command} {command : Command} (hmem : command ∈ commands)
    {s : Studio} (hs : s.ledger.Sound 0) : ∀ act, command.act? s = some act →
      Along (Preserves (Owns commands)) act s fun _ _ => True := by
  have hundived {act : Act Unit} (h : Along Undived act s fun _ _ => True) :
      Along (Preserves (Owns commands)) act s fun _ _ => True :=
    Ends.mono h (fun _ t ht => ⟨owns_of_undived s t ht.1, trivial⟩) fun _ t ht =>
      owns_of_undived s t ht
  cases hdirect : command.isDirect with
  | true =>
      cases hbypass : command.bypasses with
      | false =>
          exact fun act hact => hundived
            (keeps_untimed Undived.of_untimed Undived.keeps_schedule hdirect hbypass act hact s)
      | true =>
          cases command with
          | request context request =>
              refine forall_some (along_host fun engine hsend => ⟨?_, trivial⟩)
              intro howns c call hcall hdives
              rw [s.engine_setEngine] at hcall
              split at hcall
              case isTrue hc =>
                  rw [Request.calls_send hsend, hc.1, Array.mem_push] at hcall
                  rcases hcall with hcall | rfl
                  · exact howns c call hcall hdives
                  · exact ⟨request, hc.1 ▸ hmem, rfl⟩
              case isFalse => exact howns c call hcall hdives
          | clearCalls context =>
              refine forall_some (hundived (along_read (along_modify fun c call hcall _ => ?_)))
              rw [s.engine_setEngine] at hcall
              split at hcall
              case isTrue => simp at hcall
              case isFalse => exact hcall
          | _ => cases hbypass
  | false =>
      refine fun act hact => hundived (Command.paces hs hdirect (command.paced s)
        (fun b _ patch => (Assembles.built b patch).mono Undived.of_untimed) ?_ act hact)
      intro c time _ d call hcall _
      rw [Studio.advanced, s.engine_setEngine] at hcall
      split at hcall
      case isTrue hc => exact hc.1 ▸ hcall
      case isFalse => exact hcall

namespace Session

theorem owns_run (rate : Float) (commands : List Command) :
    Command.Owns commands (run rate commands).studio := by
  refine invariant (P := Command.Owns commands) (· ∈ commands) rate ?_ ?_ fun _ h => h
  · intro c call hcall
    cases c <;> simp [Studio.new, Studio.engine, Engine.new] at hcall
  · exact fun s hs command hmem => Command.owns_step hmem hs

-- A host that has the parameter is given all stages of a contour in their order, each at the end of the
-- one before and its own duration; an empty contour asks nothing of any host; and in all other cases
-- the host refuses and nothing has changed. No stage is recorded as a dive, and no host is told to
-- dive but by a caller who tells it so itself.
theorem contour_all_or_nothing (contour : Contour) (s : Studio) (c : ContextId) (host : HostId)
    (param : Param) (time : Float) :
    let start := Time.resolve (some time) none (s.now c)
    let calls := Contour.calls host param start contour.stages
    contour.schedule c host param time s =
      (if ((s.engine c).param? host param).isSome then .ok () (s.extend c calls [])
      else if contour.isEmpty then .ok () s
      else .error (.host ((s.engine c).refusal host param)) s) ∧
    (∀ call ∈ calls, ¬call.Dives) ∧
    ∀ rate commands, Command.Owns commands (run rate commands).studio :=
  ⟨contour.schedule_eq s c host param time, Contour.not_dives, owns_run⟩

end Session

end Patchbay
