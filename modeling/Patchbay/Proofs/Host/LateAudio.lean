import Patchbay.Proofs.Clock.EndOrder
import Patchbay.Proofs.Wiring.NestedSeries

namespace Patchbay

open Act

theorem Act.run_host {context : ContextId} {call : Engine → Except HostFault Engine} {s : Studio}
    {after : Engine} (h : call (s.engine context) = .ok after) :
    Act.host context call s = .ok () { s with engines := s.engines.modify context fun _ => after } := by
  change (Act.engine context >>= fun engine => ofExcept .host (call engine) >>= setEngine context) s = _
  have hread : Act.engine context s = .ok (s.engine context) s := rfl
  rw [run_bind hread, h]
  rfl

theorem Engine.find_changed {engine : Engine} {host : HostId} {own : HostNode}
    (h : engine.nodes[host]? = some own) (f : HostNode → HostNode) (call : HostCall) :
    ((engine.change host f).record call).nodes[host]? = some (f own) ∧
      ∀ other, other ≠ host →
        ((engine.change host f).record call).nodes[other]? = engine.nodes[other]? := by
  simp only [record, change, Array.getElem?_modify]
  exact ⟨by rw [if_pos trivial, h, Option.map_some], fun other hne => if_neg (Ne.symm hne)⟩

theorem Step.left_cons {step : Step} {steps : List Step} {s t : Studio} (h : step.act s = .ok () t) :
    Step.left (step :: steps) s = Step.left steps t := after_congr (run_bind h)

theorem Node.after_start (node : Node) (time : Float) (s : Studio) :
    (node.start time).after s = Step.left (node.startSteps s.gone time) s := by
  have hstart : node.start time s = (node.startSteps s.gone time).forM Step.act s := by
    simpa using does_start node time s rfl
  exact after_congr hstart

-- What is done with a source: it is started or stopped, or the clock moves.
inductive Turn where
  | start (time : Float)
  | stop (time : Float)
  | advance (time : Float)

def Turn.command (context : ContextId) (id : NodeId) : Turn → Command
  | .start time => .start id time
  | .stop time => .stop id time
  | .advance time => .advanceTo context time

-- How far a source has come.
structure Tape where
  begun : Option Float
  halt : Option Float
  now : Float
  ended : Bool

namespace Tape

def blank (now : Float) : Tape := ⟨none, none, now, false⟩

-- What can end it: the last stop, and the end of its audio.
def limits (tape : Tape) (length : Option Float) : List Float :=
  tape.begun.elim [] fun start => tape.halt.toList ++ (length.map (start + ·)).toList

def due (tape : Tape) (length : Option Float) : Bool := (tape.limits length).any (· ≤ tape.now)

def stopAt (tape : Tape) (time : Float) : Tape :=
  if time.isFinite && tape.begun.isSome then { tape with halt := some time } else tape

-- It begins once; each start of what has a length asks for a stop at the end of it.
def startAt (tape : Tape) (length : Option Float) (time : Float) : Tape :=
  if time.isFinite then
    let begun := { tape with begun := tape.begun.or (some time) }
    match Node.length length with
    | some duration => begun.stopAt (time + duration)
    | none => begun
  else tape

def reach (tape : Tape) (length : Option Float) (time : Float) : Tape :=
  let moved := { tape with now := Time.later tape.now time }
  { moved with ended := tape.ended || moved.due length }

def next (length : Option Float) (tape : Tape) : Turn → Tape
  | .start time => tape.startAt length time
  | .stop time => tape.stopAt time
  | .advance time => tape.reach length time

def play (length : Option Float) (now : Float) (turns : List Turn) : Tape :=
  turns.foldl (next length) (blank now)

end Tape

-- A source without a loop, made with the audio if there is some, and the callers who wait for its end.
structure Reel where
  info : NodeInfo
  host : HostId
  audio : Option Buffer
  tags : List String
  -- What had been heard before.
  heard : Array Notice

namespace Reel

def kind (reel : Reel) : NodeKind := .bufferSource reel.audio false

def length (reel : Reel) : Option Float := reel.audio.map Buffer.duration

def node (reel : Reel) : Node := .leaf reel.info reel.host true reel.kind.params []

-- The state of its node.
structure Marks (reel : Reel) (tape : Tape) (state : NodeState) : Prop where
  node : state.node = reel.node
  started : state.started = tape.begun.isSome
  live : state.disconnected = false
  ended : state.ended = tape.ended
  listeners : state.listeners = if tape.ended then [] else reel.tags.map (.caller · .done)

-- The state of its host node.
structure Drives (reel : Reel) (tape : Tape) (own : HostNode) : Prop where
  kind : own.kind = some reel.kind
  begun : own.startedAt = tape.begun
  halt : own.stopAt = tape.halt
  ended : own.ended = tape.ended
  watchers : own.watchers = if tape.ended then [] else [.node reel.info.id]

-- All else in its context is still. Its callers have been told if it has ended, and nothing else has been
-- heard since.
structure Holds (reel : Reel) (tape : Tape) (s : Studio) : Prop where
  opened : reel.info.context < s.engines.size
  node : ∃ state, s.nodes[reel.info.id]? = some state ∧ reel.Marks tape state
  host : ∃ own, (s.engine reel.info.context).nodes[reel.host]? = some own ∧ reel.Drives tape own
  still : ∀ host other, host ≠ reel.host →
    (s.engine reel.info.context).nodes[host]? = some other → ∀ now, other.due now = none
  clock : (s.engine reel.info.context).now = tape.now
  heard : s.heard = reel.heard ++ if tape.ended then reel.tags.map Notice.nodeEnded else []
  duration : reel.info.duration = Node.length reel.length

section Holds

variable {reel : Reel} {tape tape' : Tape} {s t : Studio}

theorem Holds.known (h : reel.Holds tape s) : s.node? reel.info.id = some reel.node := by
  obtain ⟨state, hstate, hmarks⟩ := h.node
  rw [Studio.node?, hstate, Option.map_some, hmarks.node]

theorem Holds.marks (h : reel.Holds tape s) : reel.Marks tape (reel.node.state s) := by
  obtain ⟨state, hstate, hmarks⟩ := h.node
  rwa [Node.state, show reel.node.id = reel.info.id from rfl, hstate, Option.getD_some]

theorem Holds.open_ (h : reel.Holds tape s) : s.gone reel.info.id = false := by
  obtain ⟨state, hstate, hmarks⟩ := h.node
  simpa [Studio.gone, Studio.ledger, hstate, NodeState.fate] using hmarks.live

-- A change of its host node, of its node, or of both.
theorem Holds.step (h : reel.Holds tape s) {after : Engine} {own : HostNode}
    (hengines : t.engines = s.engines.modify reel.info.context fun _ => after)
    (hnodes : after.nodes[reel.host]? = some own ∧ ∀ host, host ≠ reel.host →
      after.nodes[host]? = (s.engine reel.info.context).nodes[host]?)
    (hnow : after.now = tape'.now) (hdrives : reel.Drives tape' own)
    (hstate : ∀ state, s.nodes[reel.info.id]? = some state → reel.Marks tape state →
      ∃ state', t.nodes[reel.info.id]? = some state' ∧ reel.Marks tape' state')
    (hheard : t.heard = reel.heard ++ if tape'.ended then reel.tags.map Notice.nodeEnded else []) :
    reel.Holds tape' t := by
  have hengine : t.engine reel.info.context = after := by
    rw [← Studio.engine_set h.opened after, Studio.engine, hengines]
    rfl
  constructor
  case opened =>
      rw [hengines, Array.size_modify]
      exact h.opened
  case node =>
      obtain ⟨state, hthere, hmarks⟩ := h.node
      exact hstate state hthere hmarks
  case host =>
      rw [hengine]
      exact ⟨own, hnodes.1, hdrives⟩
  case still =>
      intro host other hne hother
      rw [hengine, hnodes.2 host hne] at hother
      exact h.still host other hne hother
  case clock => rw [hengine, hnow]
  case heard => exact hheard
  case duration => exact h.duration

theorem Holds.fill (h : reel.Holds tape s) : reel.Holds tape (reel.node.setBuffer.after s) := by
  obtain ⟨own, hown, hdrives⟩ := h.host
  have hholds : own.kind.any NodeKind.holdsBuffer = true := by
    rw [hdrives.kind]
    rfl
  have hset : (s.engine reel.info.context).setBuffer reel.host =
      .ok (((s.engine reel.info.context).change reel.host fun own => { own with hasBuffer := true }).record
        (.setBuffer reel.host)) := by
    simp only [Engine.setBuffer, Engine.find_eq_ok.2 hown]
    change (if (!own.kind.any NodeKind.holdsBuffer) = true then _ else _) = _
    rw [hholds]
    rfl
  have hfill : reel.node.setBuffer s = _ := run_host hset
  rw [after_of_ok hfill]
  refine h.step rfl (Engine.find_changed hown _ _) h.clock ?_
    (fun state hstate hmarks => ⟨state, hstate, hmarks⟩) h.heard
  exact ⟨hdrives.kind, hdrives.begun, hdrives.halt, hdrives.ended, hdrives.watchers⟩

-- Told to stop at a time that is finite, it stops then, if it was started.
theorem Holds.cease (h : reel.Holds tape s) {time : Float} (htime : time.isFinite = true) :
    ∃ t, reel.node.stopOwn time s = .ok () t ∧ reel.Holds (tape.stopAt time) t := by
  have hstop : reel.node.stopOwn time s = (if (reel.node.state s).started = true then
      Act.host reel.info.context (·.stop reel.host time) else pure ()) s := rfl
  rw [hstop, h.marks.started, Tape.stopAt, htime, Bool.true_and]
  cases hbegun : tape.begun.isSome with
  | false => exact ⟨s, rfl, h⟩
  | true =>
      obtain ⟨own, hown, hdrives⟩ := h.host
      have hset : (s.engine reel.info.context).stop reel.host time =
          .ok (((s.engine reel.info.context).change reel.host fun own =>
            { own with stopAt := some time }).record (.stop reel.host time)) := by
        simp only [Engine.stop, Engine.find_eq_ok.2 hown]
        change (if own.startedAt.isNone = true then _ else _) = _
        rw [hdrives.begun, ← Option.not_isSome, hbegun]
        rfl
      refine ⟨_, run_host hset, h.step rfl (Engine.find_changed hown _ _) h.clock ?_ ?_ h.heard⟩
      · exact ⟨hdrives.kind, hdrives.begun, rfl, hdrives.ended, hdrives.watchers⟩
      · intro state hstate hmarks
        exact ⟨state, hstate, hmarks.node, hmarks.started, hmarks.live, hmarks.ended, hmarks.listeners⟩

-- The first start begins it.
theorem Holds.begin (h : reel.Holds tape s) (time : Float) :
    ∃ t, reel.node.startOwn time s = .ok () t ∧
      reel.Holds { tape with begun := tape.begun.or (some time) } t := by
  have hstart : reel.node.startOwn time s = (if (reel.node.state s).started = true then pure () else do
      Act.changeNode reel.info.id fun state => { state with started := true }
      Act.host reel.info.context (·.start reel.host time)) s := rfl
  rw [hstart, h.marks.started]
  cases hbegun : tape.begun.isSome with
  | true =>
      have hsame : tape.begun.or (some time) = tape.begun := Option.or_of_isSome hbegun
      refine ⟨s, rfl, ?_⟩
      rwa [hsame]
  | false =>
      have hnone : tape.begun = none := Option.isSome_eq_false_iff.1 hbegun |> Option.isNone_iff_eq_none.1
      obtain ⟨own, hown, hdrives⟩ := h.host
      have hsource : own.isSource = true := by
        rw [HostNode.isSource, hdrives.kind]
        rfl
      have hset := Engine.start_source hown hsource time
      rw [hdrives.begun, hbegun, if_neg Bool.false_ne_true] at hset
      let marked : Studio := { s with nodes := s.nodes.modify reel.info.id fun state =>
        { state with started := true } }
      have hmark : Act.changeNode reel.info.id (fun state => { state with started := true }) s =
        .ok () marked := rfl
      have hcall : Act.host reel.info.context (·.start reel.host time) marked = _ := run_host hset
      refine ⟨_, (run_bind hmark).trans hcall, h.step rfl (Engine.find_changed hown _ _) h.clock
        ?_ ?_ h.heard⟩
      · exact ⟨hdrives.kind, by rw [hnone, Option.none_or], hdrives.halt, hdrives.ended, hdrives.watchers⟩
      · intro state hstate hmarks
        refine ⟨{ state with started := true }, ?_, hmarks.node, by simp, hmarks.live, hmarks.ended,
          hmarks.listeners⟩
        rw [Array.getElem?_modify, if_pos rfl, hstate]
        rfl

theorem Holds.stop (h : reel.Holds tape s) (time : Float) :
    reel.Holds (tape.stopAt time) ((reel.node.stop time).after s) := by
  have hsteps : reel.node.stopSteps s.gone time =
      [.check reel.node time, .cease reel.node time] := by
    rw [Reel.node, Node.stopSteps, Node.id, Node.info, h.open_, Node.stopAllSteps]
    rfl
  rw [Node.after_stop, hsteps, Step.left_check]
  split
  case isFalse hinfinite =>
      rw [Tape.stopAt, Bool.eq_false_iff.2 hinfinite]
      exact h
  case isTrue hfinite =>
      obtain ⟨t, hcease, ht⟩ := h.cease hfinite
      have hact : (Step.cease reel.node time).act s = .ok () t := hcease
      rwa [Step.left_cons hact]

theorem Holds.start (h : reel.Holds tape s) (time : Float) :
    reel.Holds (tape.startAt reel.length time) ((reel.node.start time).after s) := by
  have hsteps : reel.node.startSteps s.gone time =
      .check reel.node time :: .begin reel.node time :: reel.node.endSteps s.gone time := by
    rw [Node.startSteps_eq, Reel.node, Node.parts, Node.startAllSteps]
    rfl
  have hlength : reel.node.duration = Node.length reel.length := h.duration
  rw [Node.after_start, hsteps, Step.left_check]
  split
  case isFalse hinfinite =>
      rw [Tape.startAt, if_neg hinfinite]
      exact h
  case isTrue hfinite =>
      obtain ⟨t, hbegin, ht⟩ := h.begin time
      have hact : (Step.begin reel.node time).act s = .ok () t := hbegin
      rw [Tape.startAt, if_pos hfinite, Step.left_cons hact, Node.endSteps, hlength]
      cases hduration : Node.length reel.length with
      | none => exact ht
      | some duration =>
          have hgone : t.gone = s.gone :=
            (ends_of_ok hbegin (Step.keeps_act (.begin reel.node time) s)).1.gone
          have hstop := ht.stop (time + duration)
          rwa [Node.after_stop, hgone] at hstop

theorem naturalLength_kind (reel : Reel) : reel.kind.naturalLength = reel.length := by
  rw [kind, length, NodeKind.naturalLength.eq_def]
  cases reel.audio <;> rfl

-- It is due when one of its limits has come and it has not ended.
theorem Drives.due_iff {own : HostNode} (h : reel.Drives tape own) (now : Float) :
    (∃ time, own.due now = some time) ↔
      tape.ended = false ∧ ∃ limit ∈ tape.limits reel.length, limit ≤ now := by
  have hsource : own.isSource = true := by
    rw [HostNode.isSource, h.kind]
    rfl
  have hlimits (start : Float) : own.limits start =
      tape.halt.toList ++ (reel.length.map (start + ·)).toList := by
    rw [HostNode.limits, h.halt, h.kind, Option.bind_some, reel.naturalLength_kind]
  simp only [HostNode.due_eq_some, hsource, h.ended, true_and, exists_and_left]
  refine and_congr_right fun _ => ⟨?_, ?_⟩
  · rintro ⟨time, hend, hle⟩
    obtain ⟨start, hstart, hlimit, -⟩ := HostNode.limit_of_endTime hend
    rw [hlimits] at hlimit
    exact ⟨time, by rwa [Tape.limits, ← h.begun, hstart], hle⟩
  · rintro ⟨limit, hlimit, hle⟩
    rw [Tape.limits, ← h.begun] at hlimit
    cases hstart : own.startedAt with
    | none => simp [hstart] at hlimit
    | some start =>
        rw [hstart, Option.elim_some, ← hlimits] at hlimit
        exact HostNode.endTime_le hstart hlimit hle

-- Nothing else comes to an end with it.
theorem Holds.endDue (h : reel.Holds tape s) (time : Float) :
    let engine := (s.engine reel.info.context).advance time
    (engine.endDue.1 = [] ∧ (tape.ended || (tape.limits reel.length).any (· ≤ engine.now)) = tape.ended) ∨
      (tape.ended = false ∧ (tape.limits reel.length).any (· ≤ engine.now) = true ∧
        ∃ x, engine.endDue.1 = [⟨x, reel.host, [.node reel.info.id]⟩]) := by
  intro engine
  obtain ⟨own, hown, hdrives⟩ := h.host
  have hall : ∀ ending ∈ engine.endDue.1, ending.host = reel.host ∧ ending.watchers = own.watchers ∧
      own.due engine.now = some ending.time := by
    intro ending hending
    obtain ⟨node, hnode, hdue, hwatchers⟩ := Engine.mem_endDue.1 hending
    have hhost : ending.host = reel.host := by
      by_contra hne
      rw [h.still ending.host node hne hnode] at hdue
      cases hdue
    rw [hhost] at hnode
    obtain rfl : own = node := Option.some_inj.1 (hown.symm.trans hnode)
    exact ⟨hhost, hwatchers.symm, hdue⟩
  by_cases hdue : ∃ x, own.due engine.now = some x
  · obtain ⟨hlive, limit, hlimit, hle⟩ := (hdrives.due_iff engine.now).1 hdue
    refine .inr ⟨hlive, List.any_eq_true.2 ⟨limit, hlimit, decide_eq_true hle⟩, ?_⟩
    have hmem : reel.host ∈ engine.endDue.1.map Engine.Ending.host := by
      obtain ⟨x, hx⟩ := hdue
      exact Engine.mem_hosts_endDue.2 ⟨own, x, hown, hx⟩
    have hdistinct := engine.nodup_endDue
    cases hends : engine.endDue.1 with
    | nil => simp [hends] at hmem
    | cons ending rest =>
        rw [hends] at hall hdistinct
        obtain ⟨⟨hhost, hwatchers, -⟩, hrest⟩ := List.forall_mem_cons.1 hall
        rw [hdrives.watchers, hlive, if_neg Bool.false_ne_true] at hwatchers
        cases rest with
        | nil => exact ⟨ending.time, by rw [← hhost, ← hwatchers]⟩
        | cons other more =>
            have hother := (hrest other List.mem_cons_self).1
            simp [hhost, hother] at hdistinct
  · refine .inl ⟨?_, ?_⟩
    · refine List.eq_nil_iff_forall_not_mem.2 fun ending hending => hdue ?_
      exact ⟨ending.time, (hall ending hending).2.2⟩
    · cases hended : tape.ended with
      | true => rfl
      | false =>
          rw [Bool.false_or, Bool.eq_false_iff]
          intro hany
          obtain ⟨limit, hlimit, hle⟩ := List.any_eq_true.1 hany
          exact hdue ((hdrives.due_iff engine.now).2 ⟨hended, limit, hlimit, of_decide_eq_true hle⟩)

-- Callers who do nothing on it only hear of the end.
theorem forM_callers {tell : Listener → Act PUnit} (htell : ∀ tag (u : Studio),
      tell (.caller tag .done) u = .ok ⟨⟩ { u with heard := u.heard.push (.nodeEnded tag) })
    (tags : List String) (u : Studio) :
    (tags.map fun tag => Listener.caller tag .done).forM tell u =
      .ok ⟨⟩ { u with heard := u.heard ++ tags.map Notice.nodeEnded } := by
  induction tags generalizing u with
  | nil => simp [pure, EStateM.pure]
  | cons tag rest ih =>
      change (tell (.caller tag .done) >>= fun _ =>
        (rest.map fun tag => Listener.caller tag .done).forM tell) u = _
      rw [run_bind (htell tag u), ih]
      simp

-- The end of the host node ends the node. Its callers are told, and nobody else.
theorem Marks.run_notify {state : NodeState} (hstate : s.nodes[reel.info.id]? = some state)
    (h : reel.Marks tape state) (hlive : tape.ended = false) (emit : Instrument.Emit) :
    notify emit (.node reel.info.id) s = .ok () { s with
      nodes := s.nodes.modify reel.info.id fun state => { state with ended := true, listeners := [] }
      heard := s.heard ++ reel.tags.map Notice.nodeEnded } := by
  obtain ⟨hid, -⟩ := Array.getElem?_eq_some_iff.1 hstate
  obtain ⟨bound, hbound⟩ := Nat.exists_eq_succ_of_ne_zero (Nat.ne_zero_of_lt hid)
  have hnotify : notify emit (.node reel.info.id) s = Node.ending emit s.nodes.size reel.info.id s := rfl
  rw [hnotify, hbound, Node.ending]
  let marked : Studio := { s with nodes := s.nodes.modify reel.info.id fun state =>
    { state with ended := true, listeners := [] } }
  have hread : (get : Act Studio) s = .ok s s := rfl
  have hmark : Act.changeNode reel.info.id (fun state =>
    { state with ended := true, listeners := [] }) s = .ok () marked := rfl
  rw [run_bind hread]
  simp only [hstate, h.ended, hlive, h.listeners]
  rw [if_neg Bool.false_ne_true, if_neg Bool.false_ne_true, run_bind hmark]
  exact forM_callers (fun tag u => rfl) reel.tags marked

theorem Holds.advance (h : reel.Holds tape s) (time : Float) :
    reel.Holds (tape.reach reel.length time) ((advanceTo reel.info.context time).after s) := by
  let engine := (s.engine reel.info.context).advance time
  obtain ⟨own, hown, hdrives⟩ := h.host
  obtain ⟨state, hstate, hmarks⟩ := h.node
  have hnow : engine.now = Time.later tape.now time := by
    rw [← h.clock]
    rfl
  have hengine : (s.advanced reel.info.context time).engine reel.info.context = engine :=
    Studio.engine_advanced h.opened time
  have hreach : tape.reach reel.length time = { tape with
      now := engine.now
      ended := tape.ended || (tape.limits reel.length).any (· ≤ engine.now) } := by
    rw [hnow]
    rfl
  obtain ⟨hquiet, hsame⟩ | ⟨hlive, hdue, x, hends⟩ := h.endDue time
  · have hcalm : s.Undisturbed reel.info.context time := by
      rw [Studio.Undisturbed, Studio.callBacks, hengine, hquiet]
      trivial
    obtain ⟨t, hadvance, -, hcalls⟩ := run_advanceTo h.opened time hcalm
    rw [hquiet] at hcalls
    cases hcalls
    rw [after_of_ok hadvance, hreach, hsame]
    have hown' : engine.endDue.2.nodes[reel.host]? = some own ∧ ∀ host, host ≠ reel.host →
        engine.endDue.2.nodes[host]? = (s.engine reel.info.context).nodes[host]? := by
      rw [Engine.endDue_of_quiet hquiet]
      exact ⟨hown, fun _ _ => rfl⟩
    refine h.step rfl hown' rfl ?_ (fun state hstate hmarks => ?_) h.heard
    · exact ⟨hdrives.kind, hdrives.begun, hdrives.halt, hdrives.ended, hdrives.watchers⟩
    · exact ⟨state, hstate, hmarks.node, hmarks.started, hmarks.live, hmarks.ended, hmarks.listeners⟩
  · have hnotify := hmarks.run_notify (s := { s with
      engines := s.engines.modify reel.info.context fun _ => engine.endDue.2 }) hstate hlive
      (Instrument.emitAt s.credit)
    have hcalm : s.Undisturbed reel.info.context time := by
      rw [Studio.Undisturbed, Studio.callBacks, hengine, hends, Studio.round_advanced h.opened]
      refine ⟨?_, trivial⟩
      rw [after_of_ok hnotify]
      rfl
    obtain ⟨t, hadvance, -, hcalls⟩ := run_advanceTo h.opened time hcalm
    rw [hends] at hcalls
    change (notify _ (.node reel.info.id) >>= fun _ => (pure () : Act Unit)) _ = _ at hcalls
    rw [run_bind hnotify] at hcalls
    cases hcalls
    rw [after_of_ok hadvance, hreach, hdue, Bool.or_true]
    have hown' : engine.endDue.2.nodes[reel.host]? = some { own with ended := true, watchers := [] } ∧
        ∀ host, host ≠ reel.host →
          engine.endDue.2.nodes[host]? = (s.engine reel.info.context).nodes[host]? := by
      have hfound : engine.nodes[reel.host]? = some own := hown
      refine ⟨?_, fun host hne => ?_⟩
      · rw [engine.getElem?_endDue, hends, hfound]
        simp
      · rw [engine.getElem?_endDue, hends]
        simp [hne, engine, Engine.advance]
    refine h.step rfl hown' rfl ?_ (fun state hstate hmarks => ?_) ?_
    · exact ⟨hdrives.kind, hdrives.begun, hdrives.halt, rfl, rfl⟩
    · refine ⟨{ state with ended := true, listeners := [] }, ?_, hmarks.node, hmarks.started,
        hmarks.live, rfl, rfl⟩
      rw [Array.getElem?_modify, if_pos rfl, hstate]
      rfl
    · have hheard := h.heard
      rw [hlive, if_neg Bool.false_ne_true] at hheard
      simp [hheard]

-- One more caller waits for the end.
def asking (reel : Reel) (tag : String) : Reel := { reel with tags := reel.tags ++ [tag] }

theorem Holds.ask (h : reel.Holds tape s) (hlive : tape.ended = false) (tag : String) :
    (reel.asking tag).Holds tape ((reel.node.onEnded tag .done).after s) := by
  obtain ⟨state, hstate, hmarks⟩ := h.node
  have hended : (reel.node.state { s with asked := s.asked ++ [(reel.info.id, tag)] }).ended = false :=
    h.marks.ended.trans hlive
  have hask : reel.node.onEnded tag .done s = .ok () { s with
      asked := s.asked ++ [(reel.info.id, tag)]
      nodes := s.nodes.modify reel.info.id fun state =>
        { state with listeners := state.listeners ++ [.caller tag .done] } } := by
    have hopen : reel.node.onEnded tag .done s = (if (reel.node.state { s with
          asked := s.asked ++ [(reel.info.id, tag)] }).ended = true then Node.callBack tag .done
        else Act.changeNode reel.info.id fun state =>
          { state with listeners := state.listeners ++ [.caller tag .done] })
        { s with asked := s.asked ++ [(reel.info.id, tag)] } := rfl
    rw [hopen, hended]
    rfl
  rw [after_of_ok hask]
  constructor
  case opened => exact h.opened
  case node =>
      refine ⟨{ state with listeners := state.listeners ++ [.caller tag .done] }, ?_, hmarks.node,
        hmarks.started, hmarks.live, hmarks.ended, ?_⟩
      · rw [Array.getElem?_modify]
        simp [asking, hstate]
      · rw [hmarks.listeners, hlive]
        simp [asking]
  case host =>
      obtain ⟨own, hown, hdrives⟩ := h.host
      exact ⟨own, hown, hdrives.kind, hdrives.begun, hdrives.halt, hdrives.ended, hdrives.watchers⟩
  case still => exact h.still
  case clock => exact h.clock
  case heard =>
      rw [h.heard, hlive]
      rfl
  case duration => exact h.duration

end Holds

end Reel

-- No source of the context will come to an end by itself or by a stop that it has been given.
def Studio.Still (s : Studio) (context : ContextId) : Prop :=
  ∀ (host : HostId) node, (s.engine context).nodes[host]? = some node → ∀ now, node.due now = none

namespace Reel

-- The one that is made next in the context.
def made (s : Studio) (context : ContextId) (audio : Option Buffer) : Reel where
  info := ⟨s.nodes.size, context, "BufferSource" ++ hostLabel (s.engine context).nodes.size,
    Node.length (audio.map Buffer.duration), none⟩
  host := (s.engine context).nodes.size
  audio
  tags := []
  heard := s.heard

theorem holds_made {s : Studio} {context : ContextId} (hopen : context < s.engines.size)
    (hstill : s.Still context) (audio : Option Buffer) :
    ∃ t, Node.playback context audio false none s = .ok (made s context audio).node t ∧
      (made s context audio).Holds (.blank (s.now context)) t := by
  let reel := made s context audio
  let created := ((s.engine context).create reel.kind).2
  let filed : Studio := { s with
    engines := s.engines.modify context fun _ => created
    nodes := s.nodes.push ⟨reel.node, none, false, false, false, false, [], []⟩
    warnings := if audio.isNone then s.warnings ++ [.silentSource] else s.warnings }
  have hcreated : filed.engine context = created := Studio.engine_set hopen created
  have hmade : Node.playback context audio false none s = .ok reel.node { filed with
      engines := filed.engines.modify context fun _ =>
        (filed.engine context).watch reel.host (.node s.nodes.size) } := by
    cases audio <;> rfl
  rw [hcreated] at hmade
  let watched := created.watch reel.host (.node s.nodes.size)
  have hopen' : context < filed.engines.size := by rwa [Array.size_modify]
  have hwatched : ({ filed with engines := filed.engines.modify context fun _ => watched } :
      Studio).engine context = watched := Studio.engine_set hopen' watched
  have hnodes (host : HostId) : watched.nodes[host]? =
      if host = reel.host then
        some { HostNode.ofKind (some reel.kind) with watchers := [.node s.nodes.size] }
      else (s.engine context).nodes[host]? := by
    have hpush : created.nodes[host]? = if host = reel.host then
        some (HostNode.ofKind (some reel.kind)) else (s.engine context).nodes[host]? :=
      Array.getElem?_push
    have hwatch : watched.nodes[host]? = if reel.host = host then created.nodes[host]?.map fun node =>
        { node with watchers := node.watchers ++ [.node s.nodes.size] } else created.nodes[host]? :=
      Array.getElem?_modify
    rw [hwatch, hpush]
    by_cases hhost : host = reel.host
    · rw [if_pos hhost.symm, if_pos hhost, if_pos hhost]
      rfl
    · rw [if_neg (Ne.symm hhost), if_neg hhost, if_neg hhost]
  refine ⟨_, hmade, ?_⟩
  constructor
  case opened => rwa [Array.size_modify]
  case node => exact ⟨_, Array.getElem?_push_size, rfl, rfl, rfl, rfl, rfl⟩
  case host =>
      refine ⟨{ HostNode.ofKind (some reel.kind) with watchers := [.node s.nodes.size] }, ?_, rfl, rfl,
        rfl, rfl, rfl⟩
      change (Studio.engine _ context).nodes[reel.host]? = _
      rw [hwatched, hnodes, if_pos rfl]
  case still =>
      intro host other hne hother
      change (Studio.engine _ context).nodes[host]? = _ at hother
      rw [hwatched, hnodes, if_neg hne] at hother
      exact hstill host other hother
  case clock =>
      change (Studio.engine _ context).now = _
      rw [hwatched]
      rfl
  case heard => simp [Tape.blank, made, filed]
  case duration => rfl

end Reel

namespace Tape

section Turns

variable {tape : Tape} {length : Option Float} {time : Float}

@[simp] theorem begun_stopAt : (tape.stopAt time).begun = tape.begun := by
  unfold stopAt
  split <;> rfl

@[simp] theorem now_stopAt : (tape.stopAt time).now = tape.now := by
  unfold stopAt
  split <;> rfl

@[simp] theorem ended_stopAt : (tape.stopAt time).ended = tape.ended := by
  unfold stopAt
  split <;> rfl

theorem begun_startAt : (tape.startAt length time).begun =
    if time.isFinite then tape.begun.or (some time) else tape.begun := by
  unfold startAt
  split
  · split <;> simp
  · rfl

@[simp] theorem now_startAt : (tape.startAt length time).now = tape.now := by
  unfold startAt
  split
  · split <;> simp
  · rfl

@[simp] theorem ended_startAt : (tape.startAt length time).ended = tape.ended := by
  unfold startAt
  split
  · split <;> simp
  · rfl

theorem ended_reach (tape : Tape) (length : Option Float) (time : Float) :
    (tape.reach length time).ended =
      (tape.ended || (tape.limits length).any (· ≤ Time.later tape.now time)) := rfl

end Turns

variable {length now : Float} {turns : List Turn}

theorem play_concat (length : Option Float) (now : Float) (turns : List Turn) (turn : Turn) :
    play length now (turns ++ [turn]) = (play length now turns).next length turn := by
  rw [play, List.foldl_append]
  rfl

-- The audio has no part in when it was started, or in what the time is.
theorem play_beside (length now : Float) (turns : List Turn) :
    (play none now turns).begun = (play (some length) now turns).begun ∧
      (play none now turns).now = (play (some length) now turns).now := by
  induction turns using List.reverseRecOn with
  | nil => exact ⟨rfl, rfl⟩
  | append_singleton turns turn ih =>
      rw [play_concat, play_concat]
      cases turn with
      | start time => simp [next, begun_startAt, ih.1, ih.2]
      | stop time => simp [next, ih.1, ih.2]
      | advance time => simp [next, reach, ih.1, ih.2]

-- Whenever the clock moves, a source that was started is to stop: it was last told to by a caller, and for
-- no later than the end of its audio.
def StoppedInTime (length now : Float) (turns : List Turn) : Prop :=
  ∀ before time, before ++ [.advance time] <+: turns →
    ∀ start, (play none now before).begun = some start → ∃ halt, halt ≤ start + length ∧
      (play none now before).halt = some halt ∧ (play (some length) now before).halt = some halt

theorem ended_alike (h : StoppedInTime length now turns) :
    (play none now turns).ended = (play (some length) now turns).ended := by
  induction turns using List.reverseRecOn with
  | nil => rfl
  | append_singleton turns turn ih =>
      have hbefore : StoppedInTime length now turns := fun before time hplayed =>
        h before time (hplayed.trans (List.prefix_append turns [turn]))
      rw [play_concat, play_concat]
      cases turn with
      | start time => simp [next, ih hbefore]
      | stop time => simp [next, ih hbefore]
      | advance time =>
          obtain ⟨hbegun, hnow⟩ := play_beside length now turns
          have hlimits := h turns time (List.prefix_refl _)
          rw [next, next, ended_reach, ended_reach, ih hbefore, hnow, limits, limits, ← hbegun]
          congr 1
          cases hstart : (play none now turns).begun with
          | none => rfl
          | some start =>
              obtain ⟨halt, hle, hlate, hearly⟩ := hlimits start hstart
              rw [hlate, hearly, Bool.eq_iff_iff]
              simp only [Option.elim_some, Option.toList_some, Option.map_none, Option.toList_none,
                Option.map_some, List.append_nil, List.singleton_append, List.any_cons, List.any_nil,
                Bool.or_false, Bool.or_eq_true, decide_eq_true_eq]
              exact ⟨.inl, fun hdue => hdue.elim id (Time.le_trans hle)⟩

end Tape

namespace Session

variable {session : Session} {reel : Reel} {tape : Tape}

theorem holds_turn (h : reel.Holds tape session.studio) (turn : Turn) :
    reel.Holds (tape.next reel.length turn)
      (session.perform (turn.command reel.info.context reel.info.id)).studio := by
  cases turn with
  | start time =>
      have hact : ((Turn.start time).command reel.info.context reel.info.id).act? session.studio =
          some (reel.node.start time) := by simp [Turn.command, Command.act?, h.known]
      rw [studio_perform hact]
      exact h.start time
  | stop time =>
      have hact : ((Turn.stop time).command reel.info.context reel.info.id).act? session.studio =
          some (reel.node.stop time) := by simp [Turn.command, Command.act?, h.known]
      rw [studio_perform hact]
      exact h.stop time
  | advance time =>
      rw [studio_perform rfl]
      exact h.advance time

-- By as many turns as there are.
theorem holds_turns (h : reel.Holds tape session.studio) (turns : List Turn) :
    reel.Holds (turns.foldl (Tape.next reel.length) tape)
      ((turns.map (Turn.command reel.info.context reel.info.id)).foldl perform session).studio := by
  induction turns generalizing session tape with
  | nil => exact h
  | cons turn rest ih => exact ih (holds_turn h turn)

theorem holds_fill (h : reel.Holds tape session.studio) :
    reel.Holds tape (session.perform (.setBuffer reel.info.id)).studio := by
  have hact : (Command.setBuffer reel.info.id).act? session.studio = some reel.node.setBuffer := by
    simp [Command.act?, h.known]
  rw [studio_perform hact]
  exact h.fill

theorem holds_asks (h : reel.Holds tape session.studio) (hlive : tape.ended = false)
    (tags : List String) : Reel.Holds { reel with tags := reel.tags ++ tags } tape
      ((tags.map fun tag => .onEnded reel.info.id tag .done).foldl perform session).studio := by
  induction tags generalizing session reel with
  | nil => simpa using h
  | cons tag rest ih =>
      have hask : (reel.asking tag).Holds tape
          (session.perform (.onEnded reel.info.id tag .done)).studio := by
        have hact : (Command.onEnded reel.info.id tag .done).act? session.studio =
            some (reel.node.onEnded tag .done) := by simp [Command.act?, Reply.find, h.known]
        rw [studio_perform hact]
        exact h.ask hlive tag
      simpa [Reel.asking] using ih hask

-- A source without a loop, made with the audio if there is some, and callers who wait for its end.
def source (context : ContextId) (id : NodeId) (audio : Option Buffer) (tags : List String) :
    List Command :=
  .make context (.playback audio false none) :: tags.map fun tag => .onEnded id tag .done

theorem holds_source (rate : Float) (commands : List Command) {context : ContextId}
    (hopen : (run rate commands).studio.hasContext context = true)
    (hstill : (run rate commands).studio.Still context) (audio : Option Buffer) (tags : List String) :
    let s := (run rate commands).studio
    Reel.Holds { Reel.made s context audio with tags } (.blank (s.now context))
      (run rate (commands ++ source context s.nodes.size audio tags)).studio := by
  intro s
  obtain ⟨t, hact, hmade⟩ := Reel.holds_made (of_decide_eq_true hopen) hstill audio
  have hmake : ((run rate commands).perform (.make context (.playback audio false none))).studio = t := by
    have hplayback : (Command.make context (.playback audio false none)).act? s =
        some (discard (Node.playback context audio false none)) := by
      simp [Command.act?, Maker.act?, guard, ifGiven, s, hopen]
    rw [studio_perform hplayback, after_discard, after_of_ok hact]
  rw [run, List.foldl_append]
  exact holds_asks (hmake.symm ▸ hmade) rfl tags

-- The source and its node have both ended, or neither has. Its callers have been told once each if so,
-- and nothing else has been heard since it was made.
structure Attests (s : Studio) (context : ContextId) (id : NodeId) (tags : List String) (ended : Bool)
    (t : Studio) : Prop where
  node : ∃ node, t.node? id = some node ∧ (node.state t).ended = ended ∧
    t.hasEnded context node.outputHost = ended
  heard : t.heard = s.heard ++ if ended then tags.map Notice.nodeEnded else []

theorem attests_of_holds {s t : Studio} (h : reel.Holds tape t) (hheard : reel.heard = s.heard) :
    Attests s reel.info.context reel.info.id reel.tags tape.ended t where
  node := by
    obtain ⟨own, hown, hdrives⟩ := h.host
    refine ⟨reel.node, h.known, h.marks.ended, ?_⟩
    rw [Studio.hasEnded, Engine.hasEnded, show reel.node.outputHost = reel.host from rfl, hown,
      Option.any_some, hdrives.ended]
  heard := by rw [h.heard, hheard]

-- Two sources made in a session where nothing else comes to an end: one without audio, which is given it
-- at some point, and one with the audio. The one ends when the clock reaches the last stop that it was
-- given. The other ends by that or by the end of its audio, whichever is first; each of its starts also
-- gives it a stop, at the end of the audio counted from that start. So they end at the same moves of the
-- clock as long as callers have the source stopped in time; otherwise they may not.
theorem late_audio_unheard (rate : Float) (commands : List Command) (context : ContextId)
    (hopen : (run rate commands).studio.hasContext context = true)
    (hstill : (run rate commands).studio.Still context) (audio : Buffer) (tags : List String)
    (before after : List Turn) :
    let s := (run rate commands).studio
    let id := s.nodes.size
    let done := List.map (Turn.command context id)
    let late := commands ++ source context id none tags ++ done before ++ .setBuffer id :: done after
    let early := commands ++ source context id (some audio) tags ++ done (before ++ after)
    let turns := before ++ after
    Attests s context id tags (Tape.play none (s.now context) turns).ended (run rate late).studio ∧
    Attests s context id tags (Tape.play (some audio.duration) (s.now context) turns).ended
      (run rate early).studio ∧
    (Tape.StoppedInTime audio.duration (s.now context) turns →
      (Tape.play none (s.now context) turns).ended =
        (Tape.play (some audio.duration) (s.now context) turns).ended) := by
  intro s id done late early turns
  refine ⟨?_, ?_, Tape.ended_alike⟩
  · have hmade := holds_source rate commands hopen hstill none tags
    have hrun := holds_turns (holds_fill (holds_turns hmade before)) after
    rw [← List.foldl_append] at hrun
    have hlate : run rate late = (done after).foldl perform (((done before).foldl perform
        (run rate (commands ++ source context id none tags))).perform (.setBuffer id)) := by
      simp only [run, late, List.foldl_append, List.foldl_cons]
    rw [hlate]
    exact attests_of_holds hrun rfl
  · have hmade := holds_source rate commands hopen hstill (some audio) tags
    have hrun := holds_turns hmade (before ++ after)
    have hearly : run rate early = (done (before ++ after)).foldl perform
        (run rate (commands ++ source context id (some audio) tags)) := by
      simp only [run, early, List.foldl_append]
    rw [hearly]
    exact attests_of_holds hrun rfl

-- One sample that lasts a second.
def second : Buffer := .mono 1 [0.5]

-- Started at 0 and stopped a half later, both have ended at 1, and their callers know.
theorem second_stopped :
    let s := (run 44100 []).studio
    let turns : List Turn := [.start 0, .stop 0.5, .advance 1]
    let done := List.map (Turn.command 0 0)
    s.hasContext 0 = true ∧ s.Still 0 ∧
    Attests s 0 0 ["end"] true
      (run 44100 ([] ++ source 0 0 none ["end"] ++ done [] ++ .setBuffer 0 :: done turns)).studio ∧
    Attests s 0 0 ["end"] true
      (run 44100 ([] ++ source 0 0 (some second) ["end"] ++ done ([] ++ turns))).studio := by
  have hopen : (run 44100 []).studio.hasContext 0 = true := rfl
  have hstill : (run 44100 []).studio.Still 0 := by
    intro host node hnode now
    have hnode' : node ∈ #[HostNode.ofKind none] := Array.mem_of_getElem? hnode
    rw [Array.mem_singleton.1 hnode']
    rfl
  have hended : ∀ length ∈ [none, some second.duration],
      (Tape.play length 0 [.start 0, .stop 0.5, .advance 1]).ended = true := by decide +kernel
  obtain ⟨hlate, hearly, -⟩ := late_audio_unheard 44100 [] 0 hopen hstill second ["end"] []
    [.start 0, .stop 0.5, .advance 1]
  refine ⟨hopen, hstill, ?_, ?_⟩
  · rw [← hended none (by simp)]
    exact hlate
  · rw [← hended (some second.duration) (by simp)]
    exact hearly

-- Left to itself, a source that was given its audio late goes on when one that was made with it has ended.
theorem second_goes_on : 0 < second.frames ∧ 0 < second.rate ∧
    let done := List.map (Turn.command 0 0)
    let late := source 0 0 none [] ++ .setBuffer 0 :: done [.start 0, .advance 2]
    let early := source 0 0 (some second) [] ++ done [.start 0, .advance 2]
    (∃ node ∈ (run 44100 late).studio.node? 0, (node.state (run 44100 late).studio).ended = false) ∧
    (∃ node ∈ (run 44100 early).studio.node? 0, (node.state (run 44100 early).studio).ended = true) := by
  decide +kernel

end Session

end Patchbay
