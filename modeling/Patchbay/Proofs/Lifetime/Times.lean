import Patchbay.Proofs.Host.Ownership

namespace Patchbay

open Act

structure Node.Lasts (node : Node) : Prop where
  duration : ∀ x ∈ node.duration, 0 < x
  release : ∀ x ∈ node.release, 0 < x

theorem Node.Lasts.nonneg_release {node : Node} (h : node.Lasts) : 0 ≤ node.release.getD 0 := by
  cases hrelease : node.release with
  | none => exact Time.le_self rfl
  | some x => exact Time.le_of_lt (h.release x hrelease)

theorem Node.Lasts.after {node : Node} (h : node.Lasts) {p : Float → Prop} {time : Float}
    (hp : ∀ length, 0 ≤ length → p (time + length)) :
    p (time + node.release.getD 0) ∧ ∀ length ∈ node.duration, p (time + length) :=
  ⟨hp _ h.nonneg_release, fun length hlength => hp length (Time.le_of_lt (h.duration length hlength))⟩

-- The clocks have not gone back behind their start, and every known node has its length.
structure Studio.Metered (s : Studio) : Prop where
  clocks : ∀ c, 0 ≤ s.now c
  lengths : ∀ (id : NodeId) (node : Node), s.node? id = some node → node.Lasts

theorem Studio.Metered.lasts {s : Studio} {node : Node} (h : s.Metered)
    (hnode : s.ledger.Knows node) : node.Lasts :=
  h.lengths node.id node (s.node?_eq _ ▸ hnode)

-- Clocks stand still, and every new node has its length.
structure Enduring (s t : Studio) : Prop where
  contexts : s.engines.size ≤ t.engines.size
  clocks : ∀ c, t.now c = s.now c
  nodes : ∀ (id : NodeId) node, t.node? id = some node → s.node? id = some node ∨ node.Lasts

namespace Enduring

variable {s t : Studio}

instance : IsPreorder Studio Enduring where
  refl _ := ⟨Nat.le_refl _, fun _ => rfl, fun _ _ h => .inl h⟩
  trans _ _ _ h h' := ⟨Nat.le_trans h.contexts h'.contexts,
    fun c => (h'.clocks c).trans (h.clocks c),
    fun id node hnode => (h'.nodes id node hnode).elim (h.nodes id node) .inr⟩

theorem metered (hst : Enduring s t) (h : s.Metered) : t.Metered where
  clocks c := (hst.clocks c).symm ▸ h.clocks c
  lengths id node hnode := (hst.nodes id node hnode).elim (h.lengths id node) fun h => h

theorem of_engine (context : ContextId) {engine : Engine}
    (hnow : engine.now = (s.engine context).now) :
    Enduring s { s with engines := s.engines.modify context fun _ => engine } where
  contexts := Nat.le_of_eq Array.size_modify.symm
  nodes _ _ h := .inl h
  clocks c := by
    rw [Studio.now, s.engine_setEngine]
    split
    case isTrue hc => rw [hnow, ← hc.1, Studio.now]
    case isFalse => rfl

theorem of_eq (hengines : t.engines = s.engines) (hnodes : t.nodes = s.nodes) : Enduring s t where
  contexts := Nat.le_of_eq (by rw [hengines])
  clocks c := by rw [Studio.now, Studio.engine, hengines, ← Studio.engine, ← Studio.now]
  nodes id node h := by
    rw [Studio.node?, hnodes] at h
    exact .inl h

theorem of_change (id : NodeId) {f : NodeState → NodeState} (hf : ∀ state, (f state).node = state.node) :
    Enduring s { s with nodes := s.nodes.modify id f } where
  contexts := Nat.le_refl _
  clocks _ := rfl
  nodes other node h := by
    refine .inl ?_
    rw [← h, Studio.node?, Studio.node?, Array.getElem?_modify]
    split
    case isTrue => cases s.nodes[other]? <;> simp [hf]
    case isFalse => rfl

instance : Wires Enduring where
  request context _ _ := along_host fun _ h => ⟨of_engine context (Request.now_send h), trivial⟩
  started id := keeps_modify fun _ => of_change id fun _ => rfl
  connected id _ := keeps_modify fun _ => of_change id fun _ => rfl

end Enduring

def HostCall.time? : HostCall → Option Float
  | .start _ time | .stop _ time => some time
  | .schedule _ _ event => some event.time
  | .create _ _ | .connect _ _ | .disconnect _ | .setParam _ _ _ | .setBuffer _ => none

-- Besides, no host was told when to do anything.
structure Untimed (s t : Studio) : Prop extends Enduring s t where
  calls : ∀ c, ∃ calls, (t.engine c).calls.toList = (s.engine c).calls.toList ++ calls ∧
    ∀ call ∈ calls, call.time? = none
  stops : ∀ c host, t.stopAt? c host = s.stopAt? c host

namespace Untimed

variable {s t : Studio}

instance : IsPreorder Studio Untimed where
  refl s := ⟨refl_of Enduring s, fun _ => ⟨[], by simp, by simp⟩, fun _ _ => rfl⟩
  trans s t u h h' := by
    refine ⟨trans_of Enduring h.toEnduring h'.toEnduring, fun c => ?_,
      fun c host => (h'.stops c host).trans (h.stops c host)⟩
    obtain ⟨calls, hcalls, huntimed⟩ := h.calls c
    obtain ⟨more, hmore, huntimed'⟩ := h'.calls c
    refine ⟨calls ++ more, by rw [hmore, hcalls, List.append_assoc], fun call hcall => ?_⟩
    exact (List.mem_append.1 hcall).elim (huntimed call) (huntimed' call)

theorem of_hosts (h : Enduring s t) (hnodes : ∀ c, (t.engine c).nodes = (s.engine c).nodes)
    (hcalls : ∀ c, (t.engine c).calls = (s.engine c).calls) : Untimed s t :=
  ⟨h, fun c => ⟨[], by rw [hcalls, List.append_nil], by simp⟩,
    fun c host => by rw [Studio.stopAt?, hnodes, ← Studio.stopAt?]⟩

theorem of_eq (hengines : t.engines = s.engines) (hnodes : t.nodes = s.nodes) : Untimed s t := by
  apply of_hosts (.of_eq hengines hnodes) <;> intro c <;>
    rw [Studio.engine, hengines, ← Studio.engine]

theorem of_change (id : NodeId) {f : NodeState → NodeState} (hf : ∀ state, (f state).node = state.node) :
    Untimed s { s with nodes := s.nodes.modify id f } :=
  of_hosts (.of_change id hf) (fun _ => rfl) fun _ => rfl

theorem of_unmoved (h : Unmoved s t) (hclocks : ∀ c, t.now c = s.now c) : Untimed s t := by
  refine ⟨⟨Nat.le_of_eq h.contexts.symm, hclocks, fun id node hnode => .inl ?_⟩,
    fun c => ⟨[], by rw [h.calls, List.append_nil], by simp⟩, h.stopAt?⟩
  have hsame := congrArg (Option.map Prod.fst) (h.nodes id)
  rw [Option.map_map, Option.map_map] at hsame
  exact hsame.symm.trans hnode

theorem of_untouched (h : Untouched s t) : Untimed s t := of_unmoved h.toUnmoved h.clocks

-- A host that has at most been told something at no particular time.
theorem of_engine (context : ContextId) {engine : Engine} (calls : List HostCall)
    (hnow : engine.now = (s.engine context).now)
    (hcalls : engine.calls.toList = (s.engine context).calls.toList ++ calls)
    (huntimed : ∀ call ∈ calls, call.time? = none)
    (hstops : ∀ host : HostId, (engine.nodes[host]?).bind HostNode.stopAt = s.stopAt? context host) :
    Untimed s { s with engines := s.engines.modify context fun _ => engine } := by
  refine ⟨.of_engine context hnow, fun c => ?_, fun c host => ?_⟩
  · rw [s.engine_setEngine]
    split
    case isTrue hc => exact ⟨calls, hc.1 ▸ hcalls, huntimed⟩
    case isFalse => exact ⟨[], by simp, by simp⟩
  · rw [Studio.stopAt?, s.engine_setEngine]
    split
    case isTrue hc => rw [hstops, hc.1]
    case isFalse => rfl

theorem stopAt_change (engine : Engine) (host other : HostId) {f : HostNode → HostNode}
    (hf : ∀ node, (f node).stopAt = node.stopAt) :
    ((engine.change host f).nodes[other]?).bind HostNode.stopAt =
      (engine.nodes[other]?).bind HostNode.stopAt := by
  rw [Engine.change, Array.getElem?_modify]
  split
  case isTrue => cases engine.nodes[other]? <;> simp [hf]
  case isFalse => rfl

-- The host has changed one of its nodes, and told about it.
theorem of_touch (context : ContextId) (host : HostId) {f : HostNode → HostNode} (call : HostCall)
    (huntimed : call.time? = none) (hf : ∀ node, (f node).stopAt = node.stopAt) :
    Untimed s { s with engines := s.engines.modify context fun _ =>
      ((s.engine context).change host f).record call } := by
  refine of_engine context [call] rfl (by simp [Engine.record, Engine.change]) (by simpa) fun other => ?_
  exact stopAt_change (s.engine context) host other hf

theorem keeps_request (context : ContextId) (request : Request) (h : request.call.time? = none) :
    Keeps Untimed (Act.host context request.send) := by
  refine fun s => along_host fun engine hsend => ⟨?_, trivial⟩
  rw [(Request.send_eq hsend).2]
  refine of_touch context request.host request.call h fun node => ?_
  cases request <;> first | rfl | cases h

theorem keeps_enrol (context : ContextId) (label : String) (duration release : Option Float)
    (make : NodeInfo → Node) (hmake : ∀ info, (make info).info = info) :
    Keeps Untimed (Node.enrol context label duration release make) := by
  refine fun s => Ends.mono (Node.ends_enrolled s) (fun node t ht => ⟨?_, trivial⟩) fun _ _ h => h.elim
  obtain ⟨⟨info, rfl, -, hduration, hrelease⟩, state, hstanding, huntouched⟩ := ht
  have hlasts : state.node.Lasts := by
    have hnode : state.node.info = info := by
      rw [show state.node = make info from congrArg Prod.fst hstanding, hmake]
    have hpos {x : Float} {length : Option Float} (hx : x ∈ Node.length length) : 0 < x := by
      simpa using (Option.filter_eq_some_iff.1 hx).2
    refine ⟨fun x hx => ?_, fun x hx => ?_⟩
    · rw [Node.duration, hnode, hduration] at hx
      exact hpos hx
    · rw [Node.release, hnode, hrelease] at hx
      exact hpos hx
  have hpush : Untimed s { s with nodes := s.nodes.push state } := by
    refine of_hosts ⟨Nat.le_refl _, fun _ => rfl, fun id node hnode => ?_⟩ (fun _ => rfl) fun _ => rfl
    rw [s.node?_push] at hnode
    split at hnode
    case isTrue => exact .inr (Option.some_inj.1 hnode ▸ hlasts)
    case isFalse => exact .inl hnode
  exact trans_of Untimed hpush (of_untouched huntouched)

instance : Composes Untimed where
  connect context source target := keeps_request context (.connect source target) rfl
  setParam context host param x := keeps_request context (.setParam host param x) rfl
  setBuffer context host := keeps_request context (.setBuffer host) rfl
  connected id _ := keeps_modify fun _ => of_change id fun _ => rfl
  created context kind s := by
    have hcreated : Untimed s { s with
        engines := s.engines.modify context fun _ => ((s.engine context).create kind).2 } :=
      of_engine context [.create (s.engine context).nodes.size kind.name] rfl
        (by simp [Engine.create, Engine.record]) (by simp [HostCall.time?]) fun host => by
          simp only [Engine.create, Engine.record, Array.getElem?_push, Studio.stopAt?]
          split
          case isTrue hnew => simp [hnew, HostNode.ofKind]
          case isFalse => rfl
    exact along_read (along_bind (along_modify hcreated) fun _ _ _ _ => along_pure trivial)
  enrolled := keeps_enrol
  watched context host watcher _ := along_read (along_modify
    (of_engine context [] rfl (List.append_nil _).symm (by simp)
      fun other => stopAt_change _ host other fun _ => rfl))
  warned _ := keeps_modify fun _ => of_eq rfl rfl
  read read s := by
    unfold Along Ends reading
    cases read s.warnings with
    | ok a warnings => exact ⟨of_eq rfl rfl, trivial⟩
    | error e warnings => exact of_eq rfl rfl
  opened context s := by
    unfold Along Builder.new
    rw [ends_modifyGet]
    exact ⟨of_eq rfl rfl, trivial⟩
  memoized _ _ _ := keeps_modify fun _ => of_eq rfl rfl

theorem keeps_cutHost (context : ContextId) (host : HostId) :
    Keeps Untimed (Act.host context (·.disconnect host)) := by
  refine fun s => along_host fun engine h => ⟨?_, trivial⟩
  obtain ⟨node, -, h⟩ := ok_of_bind h
  cases h
  exact of_touch context host (.disconnect host) rfl fun _ => rfl

theorem keeps_disconnect (node : Node) : Keeps Untimed node.disconnect :=
  node.keeps_disconnect (fun inner _ => keeps_modify fun _ => of_change inner.id fun _ => rfl)
    keeps_cutHost fun id => keeps_modify fun _ => of_change id fun _ => rfl

theorem of_opened (s : Studio) (rate : Float) :
    Untimed s { s with engines := s.engines.push (.new rate) } := by
  refine of_hosts ⟨?_, fun c => ?_, fun _ _ h => .inl h⟩ (fun c => (s.engine_opened rate c).1)
    fun c => (s.engine_opened rate c).2.1
  · simp
  · exact (s.engine_opened rate c).2.2

end Untimed

namespace Enduring

variable {s t : Studio}

theorem of_untimed (s t : Studio) (h : Untimed s t) : Enduring s t := h.toEnduring

instance : Creates Enduring where
  created context kind := (Creates.created context kind).mono of_untimed
  enrolled context label duration release make hmake :=
    (Creates.enrolled context label duration release make hmake).mono of_untimed
  watched context host watcher := (Creates.watched context host watcher).mono of_untimed
  warned warning := (Creates.warned warning).mono of_untimed

end Enduring

namespace Studio.Metered

theorem of_enduring (s t : Studio) (hst : Enduring s t) : Preserves Metered s t := hst.metered

instance : Drafts (Preserves Metered) := .of_finer fun s t (h : Untimed s t) => h.metered

instance : Paces (Preserves Metered) fun _ _ => True :=
  .of_finer of_enduring (fun _ _ h => (Untimed.of_untouched h).toEnduring)
    (fun s rate _ => along_openContext (Untimed.of_opened s rate).metered)
    fun node => (Untimed.keeps_disconnect node).mono Enduring.of_untimed

theorem advance {s : Studio} (h : s.Metered) (context : ContextId) (time : Float) :
    (s.advanced context time).Metered where
  lengths := h.lengths
  clocks c := by
    rw [now, Studio.advanced, s.engine_setEngine]
    split
    case isTrue =>
        have hnow := h.clocks context
        exact Time.le_trans hnow (Time.now_le_later time (Time.number_of_le hnow))
    case isFalse => exact h.clocks c

end Studio.Metered

namespace Session

theorem metered_run (rate : Float) (commands : List Command) :
    (run rate commands).studio.Metered := by
  refine invariant (P := Studio.Metered) (fun _ => True) rate ?_ ?_ fun _ _ => trivial
  · refine ⟨fun c => ?_, fun id node hnode => ?_⟩
    · cases c <;> exact Time.le_self rfl
    · simp [Studio.new, Studio.node?] at hnode
  · intro s hs command _
    cases hdirect : command.isDirect with
    | true =>
        intro act hact
        have hkeeps : Keeps Enduring act := by
          refine Command.keeps_direct (fun context host => ?_) (fun context => ?_) hdirect act hact
          · exact (Untimed.keeps_cutHost context host).mono Enduring.of_untimed
          · exact fun _ => along_read (along_modify (.of_engine context rfl))
        exact hkeeps.mono Studio.Metered.of_enduring s
    | false =>
        refine Command.paces hs hdirect (command.paced s) (fun b _ patch => ?_) fun c time _ h => ?_
        · exact (Assembles.built b patch).mono fun s t (h : Untimed s t) => h.metered
        · exact h.advance c time

end Session

-- Holds across whatever starts host nodes at times that it admits, and stops them on behalf of the
-- nodes that it is about. What it admits it goes on admitting, and any later time with it.
class Times (R : Studio → Studio → Prop) (admits : outParam (Studio → Float → Prop))
    (about : outParam (Node → Prop)) : Prop extends IsPreorder Studio R where
  started : ∀ id, Keeps R (changeNode id fun state => { state with started := true })
  curve : ∀ (contour : Contour) context host param time,
    Keeps R (contour.schedule context host param time)
  start : ∀ (s : Studio) context host time, time.isFinite = true → admits s time →
    Along R (Act.host context (·.start host time)) s fun _ _ => True
  stop : ∀ (s : Studio) (node : Node) host time, about node → node.source? = some host →
    (node.state s).disconnected = false → time.isFinite = true → admits s time →
    Along R (Act.host node.context (·.stop host time)) s fun _ _ => True
  lasting : ∀ s t time, R s t → admits s time → admits t time
  after : ∀ s (node : Node) time, about node → admits s time →
    admits s (time + node.release.getD 0) ∧ ∀ length ∈ node.duration, admits s (time + length)

namespace Node

variable {R : Studio → Studio → Prop} {admits : Studio → Float → Prop} {about : Node → Prop}
variable [htimes : Times R admits about] {s : Studio} {node : Node} {nodes : List Node} {time : Float}

section Parts

include htimes

theorem timed_forM {act : Node → Act PUnit}
    (h : ∀ node ∈ nodes, ∀ s, admits s time → Along R (act node) s fun _ _ => True)
    (htime : admits s time) : Along R (nodes.forM act) s fun _ _ => True := by
  induction nodes generalizing s with
  | nil => exact along_pure trivial
  | cons node rest ih =>
      refine along_bind (h node List.mem_cons_self s htime) fun _ t hst _ => ?_
      exact ih (fun other hother => h other (List.mem_cons_of_mem _ hother))
        (Times.lasting s t time hst htime)

theorem timed_stopAll
    (h : ∀ node ∈ nodes, ∀ s time, admits s time → Along R (node.stop time) s fun _ _ => True)
    (htime : admits s time) : Along R (stopAll nodes time) s fun _ _ => True := by
  rw [stopAll_eq]
  refine timed_forM (fun node hnode t ht => ?_) htime
  exact h node (List.mem_of_mem_filter hnode) t time ht

-- From its end on, a chain gives ever later times.
theorem timed_stopChain (hnodes : ∀ node ∈ nodes, about node)
    (h : ∀ node ∈ nodes, ∀ s time, admits s time → Along R (node.stop time) s fun _ _ => True)
    (htime : admits s time) : Along R (stopChain nodes time) s fun time t => admits t time := by
  induction nodes generalizing s with
  | nil => exact along_pure htime
  | cons node rest ih =>
      have hrest := ih (fun other hother => hnodes other (List.mem_cons_of_mem _ hother))
        (fun other hother => h other (List.mem_cons_of_mem _ hother)) htime
      rw [stopChain]
      refine along_bind hrest fun later t _ hlater => ?_
      split
      case isTrue =>
          refine along_bind (h node List.mem_cons_self t later hlater) fun _ u htu _ => ?_
          have hlater := Times.lasting t u later htu hlater
          exact along_pure
            (Times.after (R := R) u node later (hnodes node List.mem_cons_self) hlater).1
      case isFalse => exact along_pure hlater

theorem timed_stopParts (hnodes : ∀ part ∈ node.parts, about part)
    (h : ∀ part ∈ node.parts, ∀ s time, admits s time →
      Along R (part.stop time) s fun _ _ => True) (htime : admits s time) :
    Along R (node.stopParts time) s fun _ _ => True := by
  unfold stopParts
  split
  case h_1 info head tail =>
      have htail : Along R (stopChain tail time) s fun time t => admits t time :=
        timed_stopChain (fun part hpart => hnodes part (List.mem_cons_of_mem head hpart))
          (fun part hpart => h part (List.mem_cons_of_mem head hpart)) htime
      refine along_bind htail fun later t _ hlater => timed_stopAll (fun part hpart => ?_) hlater
      obtain rfl := List.mem_singleton.1 hpart
      exact h part List.mem_cons_self
  case h_2 => exact timed_stopAll h htime

theorem timed_stopOwn (hnode : about node) (hconnected : (node.state s).disconnected = false)
    (hfinite : time.isFinite = true) (htime : admits s time) :
    Along R (node.stopOwn time) s fun _ _ => True := by
  unfold stopOwn
  split
  case h_1 info host params modulators =>
      unfold stopSource
      refine along_read ?_
      split
      case isTrue => exact Times.stop s _ host time hnode rfl hconnected hfinite htime
      case isFalse => exact along_pure trivial
  case h_2 info host attack release => exact Times.curve release info.context host .gain time s
  case h_3 => exact along_pure trivial

theorem timed_stop (hnode : ∀ inner ∈ node.reach, about inner) (htime : admits s time) :
    Along R (node.stop time) s fun _ _ => True := by
  induction node using induct generalizing s time with
  | step node ih =>
      have hnodes (part : Node) (hpart : part ∈ node.parts) : ∀ inner ∈ part.reach, about inner :=
        fun inner hinner => hnode inner (reach_trans hinner (part_mem_reach hpart))
      have hstop (part : Node) (hpart : part ∈ node.parts) (s : Studio) (time : Float)
          (htime : admits s time) : Along R (part.stop time) s fun _ _ => True :=
        ih part hpart (hnodes part hpart) htime
      have habout (part : Node) (hpart : part ∈ node.parts) : about part :=
        hnode part (part_mem_reach hpart)
      refine along_stop_of_steps (fun _ => trivial) fun hconnected hfinite => ?_
      have hself := hnode node (self_mem_reach node)
      refine along_bind (timed_stopOwn hself hconnected hfinite htime) fun _ t hst _ => ?_
      exact timed_stopParts habout hstop (Times.lasting s t time hst htime)

theorem timed_startOwn (hfinite : time.isFinite = true) (htime : admits s time) :
    Along R (node.startOwn time) s fun _ _ => True := by
  cases node with
  | leaf info host source params modulators =>
      cases source with
      | false => exact along_pure trivial
      | true =>
          unfold startOwn startSource
          refine along_read ?_
          split
          case isTrue => exact along_pure trivial
          case isFalse =>
              refine along_bind (Times.started _ s) fun _ t hst _ => ?_
              exact Times.start t _ host time hfinite (Times.lasting s t time hst htime)
  | envelope info host attack release =>
      exact keeps_bind (Times.started _) (fun _ => Times.curve attack info.context host .gain time) s
  | series | parallel | wrapped => exact along_pure trivial

theorem timed_start (hnode : ∀ inner ∈ node.reach, about inner) (htime : admits s time) :
    Along R (node.start time) s fun _ _ => True := by
  induction node using induct generalizing s with
  | step node ih =>
      have hnodes (part : Node) (hpart : part ∈ node.parts) : ∀ inner ∈ part.reach, about inner :=
        fun inner hinner => hnode inner (reach_trans hinner (part_mem_reach hpart))
      rw [start_eq]
      refine along_bind along_checkTime fun _ t _ ⟨ht, hfinite⟩ => ?_
      subst ht
      refine along_bind (timed_startOwn hfinite htime) fun _ u htu _ => ?_
      have hu := Times.lasting _ u time htu htime
      have hparts : Along R (startAll node.parts time) u fun _ _ => True := by
        rw [startAll_eq]
        refine timed_forM (fun part hpart t ht => ?_) hu
        exact ih part (List.mem_of_mem_filter hpart) (hnodes part (List.mem_of_mem_filter hpart)) ht
      refine along_bind hparts fun _ v huv _ => ?_
      have hv := Times.lasting u v time huv hu
      unfold stopAtEnd
      split
      case h_1 length hlength =>
          have hlasting := (Times.after (R := R) v node time (hnode node (self_mem_reach node)) hv).2
          exact timed_stop hnode (hlasting length hlength)
      case h_2 => exact along_pure trivial

end Parts

end Node

end Patchbay
