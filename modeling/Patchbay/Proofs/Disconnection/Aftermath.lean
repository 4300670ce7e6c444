import Patchbay.Proofs.Lifetime.Refusal
import Patchbay.Proofs.Disconnection.Cascade

namespace Patchbay

open Act

-- The host node that a call has sound, fall silent, move, or be heard elsewhere.
def HostCall.driven? : HostCall → Option HostId
  | .start id _ | .stop id _ | .schedule id _ _ => some id
  | .connect source _ => some source
  | .create _ _ | .disconnect _ | .setParam _ _ _ | .setBuffer _ => none

-- The calls on the log that drive a host node, in order.
def Engine.drives (engine : Engine) (host : HostId) : List HostCall :=
  engine.calls.toList.filter (·.driven? = some host)

-- Whether the node of this number counts as connected.
def Studio.connected (s : Studio) (id : NodeId) : Bool := (s.nodes[id]?).any (·.connected)

-- From one to the other such calls drive the host node, and no others.
def Drives (P : HostCall → Prop) (c : ContextId) (host : HostId) (s t : Studio) : Prop :=
  ∃ calls, (t.engine c).drives host = (s.engine c).drives host ++ calls ∧ ∀ call ∈ calls, P call

namespace Drives

variable {P : HostCall → Prop} {c : ContextId} {host : HostId} {s t : Studio}

theorem of_quiet (h : (t.engine c).calls = (s.engine c).calls) : Drives P c host s t :=
  ⟨[], by rw [Engine.drives, h, List.append_nil, Engine.drives], by simp⟩

instance : IsPreorder Studio (Drives P c host) where
  refl _ := of_quiet rfl
  trans s t u h h' := by
    obtain ⟨calls, hcalls, hP⟩ := h
    obtain ⟨more, hmore, hP'⟩ := h'
    refine ⟨calls ++ more, by rw [hmore, hcalls, List.append_assoc], fun call hcall => ?_⟩
    exact (List.mem_append.1 hcall).elim (hP call) (hP' call)

theorem of_request {context : ContextId} {request : Request} {engine : Engine}
    (h : request.send (s.engine context) = .ok engine)
    (hP : context = c → request.call.driven? = some host → P request.call) :
    Drives P c host s { s with engines := s.engines.modify context fun _ => engine } := by
  unfold Drives
  rw [s.engine_setEngine]
  split
  case isFalse => exact of_quiet rfl
  case isTrue hc =>
      obtain ⟨rfl, -⟩ := hc
      refine ⟨[request.call].filter (·.driven? = some host), ?_, fun call hcall => ?_⟩
      · rw [Engine.drives, Request.calls_send h, Array.toList_push, List.filter_append, Engine.drives]
      · obtain ⟨hmem, hdriven⟩ := List.mem_filter.1 hcall
        obtain rfl := List.mem_singleton.1 hmem
        exact hP rfl (of_decide_eq_true hdriven)

-- Without such calls it is not driven at all.
theorem eq_of_none (h : Drives (fun _ => False) c host s t) :
    (t.engine c).drives host = (s.engine c).drives host := by
  obtain ⟨calls, hcalls, hnone⟩ := h
  rw [hcalls, List.eq_nil_iff_forall_not_mem.2 hnone, List.append_nil]

end Drives

-- So it is with all host nodes that the node is silenced by. Besides, nothing ends, is disconnected
-- or is connected; what was started stays so.
structure Sparing (node : Node) (P : HostCall → Prop) (s t : Studio) : Prop extends Sounding s t where
  drives : ∀ host ∈ node.cutHosts, Drives P node.context host s t
  connected : ∀ id, t.connected id = s.connected id

namespace Sparing

variable {node : Node} {P : HostCall → Prop} {context : ContextId} {s t : Studio}

instance : IsPreorder Studio (Sparing node P) where
  refl s := ⟨refl_of Sounding s, fun host _ => refl_of (Drives P _ host) s, fun _ => rfl⟩
  trans _ _ _ h h' := ⟨trans_of Sounding h.toSounding h'.toSounding,
    fun host hhost => trans_of (Drives P _ host) (h.drives host hhost) (h'.drives host hhost),
    fun id => (h'.connected id).trans (h.connected id)⟩

theorem along_request (request : Request) (hP : context = node.context →
      ∀ host ∈ node.cutHosts, request.call.driven? = some host → P request.call) :
    Along (Sparing node P) (Act.host context request.send) s fun _ _ => True :=
  along_host fun _ h => ⟨⟨.of_request h, fun host hhost => .of_request h fun hc => hP hc host hhost,
    fun _ => rfl⟩, trivial⟩

theorem keeps_mark (id : NodeId) :
    Keeps (Sparing node P) (changeNode id fun state => { state with started := true }) := by
  refine keeps_modify fun s => ⟨?_, fun _ _ => .of_quiet rfl, fun other => ?_⟩
  · exact .of_ledger (s.ledger_changeNode_eq id fun _ => rfl)
      (Sounding.started_changeNode id fun _ _ => rfl)
  · simp only [Studio.connected, Array.getElem?_modify]
    split
    case isTrue => cases s.nodes[other]? <;> rfl
    case isFalse => rfl

theorem keeps_schedule {own : HostId} (contour : Contour) (param : Param) (time : Float)
    (hP : context = node.context → own ∈ node.cutHosts → ∀ event, P (.schedule own param event)) :
    Keeps (Sparing node P) (contour.schedule context own param time) := by
  have hfirst (event : Automation) :
      Keeps (Sparing node P) (Act.host context (·.schedule own param event)) := fun s => by
    refine along_request (.schedule own param event) fun hc host hhost hdriven => ?_
    obtain rfl := Option.some_inj.1 hdriven
    exact hP hc hhost event
  have hstages : ∀ (stages : List Stage) (time : Float),
      Keeps (Sparing node P) (Contour.scheduleStages context own param time stages) := by
    intro stages
    induction stages with
    | nil => exact fun _ => keeps_pure _
    | cons stage rest ih => exact fun _ => keeps_bind (hfirst _) fun _ => ih _
  exact keeps_bind (keeps_now context) fun _ => hstages contour.stages _

end Sparing

namespace Node

section Through

variable {R : Studio → Studio → Prop} [IsPreorder Studio R] {s t : Studio} {node : Node}
  {nodes : List Node} {time : Float}

-- An act on the node moves along the relation, whenever it is its turn.
def Stays (R : Studio → Studio → Prop) (s : Studio) (act : Act Unit) : Prop :=
  ∀ t, R s t → Along R act t fun _ _ => True

theorem stays_forM {act : Node → Act Unit} (h : ∀ node ∈ nodes, Stays R s (act node)) :
    Stays R s (nodes.forM act) := by
  induction nodes with
  | nil => exact fun _ _ => along_pure trivial
  | cons node rest ih =>
      intro t hst
      refine along_bind (h node List.mem_cons_self t hst) fun _ u htu _ => ?_
      exact ih (fun other hother => h other (List.mem_cons_of_mem _ hother)) u (trans_of R hst htu)

theorem stays_stopAll (h : ∀ node ∈ nodes, ∀ time, Stays R s (node.stop time)) :
    Stays R s (stopAll nodes time) := by
  rw [stopAll_eq]
  exact stays_forM fun node hnode => h node (List.mem_of_mem_filter hnode) time

theorem stays_stopChain (h : ∀ node ∈ nodes, ∀ time, Stays R s (node.stop time)) (hst : R s t) :
    Along R (stopChain nodes time) t fun _ _ => True := by
  induction nodes generalizing t with
  | nil => exact along_pure trivial
  | cons node rest ih =>
      rw [stopChain]
      refine along_bind (ih (fun other hother => h other (List.mem_cons_of_mem _ hother)) hst)
        fun later u htu _ => ?_
      split
      case isTrue =>
          refine along_bind (h node List.mem_cons_self later u (trans_of R hst htu)) fun _ _ _ _ => ?_
          exact along_pure trivial
      case isFalse => exact along_pure trivial

-- So does the stop of the node itself, unless that is disconnected then.
def StopStays (R : Studio → Studio → Prop) (s : Studio) (node : Node) : Prop :=
  ∀ t, R s t → (node.state t).disconnected = false →
    ∀ time, Along R (node.stopOwn time) t fun _ _ => True

theorem stays_stopParts (h : ∀ part ∈ node.parts, ∀ time, Stays R s (part.stop time)) :
    Stays R s (node.stopParts time) := by
  intro t hst
  unfold stopParts
  split
  case h_1 info head tail =>
      have htail (part : Node) (hpart : part ∈ tail) := h part (List.mem_cons_of_mem head hpart)
      refine along_bind (stays_stopChain htail hst) fun later u htu _ => ?_
      refine stays_stopAll (fun part hpart => ?_) u (trans_of R hst htu)
      obtain rfl := List.mem_singleton.1 hpart
      exact h part List.mem_cons_self
  case h_2 => exact stays_stopAll h t hst

-- A stop comes to nodes that it reaches and that are not disconnected, and to no others.
theorem stays_stop (h : ∀ inner ∈ node.reach, StopStays R s inner) :
    Stays R s (node.stop time) := by
  induction node using induct generalizing time with
  | step node ih =>
      intro t hst
      have hstop (part : Node) (hpart : part ∈ node.parts) (time : Float) :
          Stays R s (part.stop time) :=
        ih part hpart fun inner hinner => h inner (reach_trans hinner (part_mem_reach hpart))
      refine along_stop_of_steps (fun _ => trivial) fun hconnected _ => ?_
      have hself := h node (self_mem_reach node) t hst hconnected time
      exact along_bind hself fun _ u htu _ => stays_stopParts hstop u (trans_of R hst htu)

-- A start comes to all that it reaches, and then stops what has a length.
theorem stays_start (h : ∀ inner ∈ node.reach, Stays R s (inner.startOwn time))
    (hstop : ∀ inner ∈ node.reach, StopStays R s inner) : Stays R s (node.start time) := by
  induction node using induct with
  | step node ih =>
      intro t hst
      rw [start_eq]
      refine along_bind along_checkTime fun _ u _ ⟨hu, _⟩ => ?_
      subst hu
      refine along_bind (h node (self_mem_reach node) u hst) fun _ v huv _ => ?_
      have hsv := trans_of R hst huv
      have hparts : Along R (startAll node.parts time) v fun _ _ => True := by
        rw [startAll_eq]
        refine stays_forM (fun part hpart => ?_) v hsv
        have hreach {inner : Node} (hinner : inner ∈ part.reach) : inner ∈ node.reach :=
          reach_trans hinner (part_mem_reach (List.mem_of_mem_filter hpart))
        exact ih part (List.mem_of_mem_filter hpart) (fun inner hinner => h inner (hreach hinner))
          fun inner hinner => hstop inner (hreach hinner)
      refine along_bind hparts fun _ w hvw _ => ?_
      unfold stopAtEnd
      split
      case h_1 => exact stays_stop hstop w (trans_of R hsv hvw)
      case h_2 => exact along_pure trivial

end Through

end Node

-- The host nodes of a node are no other node's.
theorem Housed.alone {s : Studio} (hs : Housed s) (hsound : s.ledger.Sound 0) {node other : Node}
    (hnode : s.ledger.Knows node) (hother : s.ledger.Knows other)
    (hcontext : other.context = node.context) {host : HostId} (hhost : host ∈ node.cutHosts)
    (hown : host ∈ other.ownHosts) : other = node := by
  have hformed := hsound.formed hnode
  have hne : host ≠ Engine.destination := by
    rintro rfl
    exact hformed.spares hhost
  have hid := hs.apart node.id other.id node other (Studio.node?_of_knows hnode)
    (Studio.node?_of_knows hother) hformed.opened hcontext host hhost (Node.mem_cutHosts_of_own hown hne)
  rw [Ledger.Knows, ← hid, hnode] at hother
  exact (Option.some_inj.1 hother).symm

namespace Node

-- What a start still has the host node of a node do: a source is started that was not before, and the
-- level of an envelope is moved.
def Wakes (node : Node) (s : Studio) : HostCall → Prop
  | .start host _ => node.source? = some host ∧ (node.state s).started = false
  | .schedule _ _ _ => ∃ info host attack release, node = .envelope info host attack release
  | _ => False

-- It connects its output in the context.
def Sends (node : Node) (c : ContextId) (call : HostCall) : Prop :=
  node.context = c ∧ ∃ endpoint, call = .connect node.outputHost endpoint

section Cut

variable {s : Studio} {node other : Node} {P : HostCall → Prop} {time : Float} (hs : Housed s)
  (hsound : s.ledger.Sound 0) (hnode : s.ledger.Knows node) (hother : s.ledger.Knows other)
include hs hsound hnode hother

theorem stopStays_sparing (hcut : (node.state s).disconnected = true) :
    StopStays (Sparing node P) s other := by
  intro t hst hconnected time
  -- The node itself is not stopped, and its host nodes are no other's.
  have hapart {own : HostId} (hown : own ∈ other.ownHosts) (hcontext : other.context = node.context)
      (hhost : own ∈ node.cutHosts) : False := by
    obtain rfl := hs.alone hsound hnode hother hcontext hhost hown
    rw [state_disconnected] at hcut hconnected
    rw [hst.fate, hcut] at hconnected
    cases hconnected
  cases other with
  | leaf info own source params modulators =>
      cases source with
      | false => exact along_pure trivial
      | true =>
          refine along_read ?_
          split
          case isTrue =>
              refine Sparing.along_request (.stop own time) fun hcontext host hhost hdriven => ?_
              obtain rfl := Option.some_inj.1 hdriven
              exact (hapart List.mem_cons_self hcontext hhost).elim
          case isFalse => exact along_pure trivial
  | envelope info own attack release =>
      cases release with
      | none => exact along_pure trivial
      | some release =>
          refine Sparing.keeps_schedule release .gain time (fun hcontext hhost => ?_) t
          exact (hapart List.mem_cons_self hcontext hhost).elim
  | series | parallel | wrapped => exact along_pure trivial

theorem stays_startOwn : Stays (Sparing node (node.Wakes s)) s (other.startOwn time) := by
  intro t hst
  cases other with
  | leaf info own source params modulators =>
      cases source with
      | false => exact along_pure trivial
      | true =>
          refine along_read ?_
          split
          case isTrue => exact along_pure trivial
          case isFalse hfresh =>
              refine along_bind (Sparing.keeps_mark _ t) fun _ u _ _ => ?_
              refine Sparing.along_request (.start own time) fun hcontext host hhost hdriven => ?_
              obtain rfl := Option.some_inj.1 hdriven
              obtain rfl := hs.alone hsound hnode hother hcontext hhost List.mem_cons_self
              refine ⟨rfl, Bool.eq_false_iff.2 fun hstarted => hfresh ?_⟩
              rw [state_started] at hstarted ⊢
              exact hst.started _ hstarted
  | envelope info own attack release =>
      refine along_bind (Sparing.keeps_mark _ t) fun _ u _ _ => ?_
      refine Sparing.keeps_schedule attack .gain time (fun hcontext hhost event => ?_) u
      obtain rfl := hs.alone hsound hnode hother hcontext hhost List.mem_cons_self
      exact ⟨info, own, attack, release, rfl⟩
  | series | parallel | wrapped => exact along_pure trivial

end Cut

theorem drives_connect (node : Node) (target : Target) (c : ContextId) (host : HostId) :
    Keeps (Drives (node.Sends c) c host) (node.connect target) := by
  refine keeps_connect_of (fun endpoint => ?_) target
  refine keeps_bind (fun s => along_host fun _ h => ?_) fun _ => keeps_modify fun _ => .of_quiet rfl
  have hsent : (Request.connect node.outputHost endpoint).send _ = .ok _ := h
  exact ⟨.of_request hsent fun hc _ => ⟨hc, endpoint, rfl⟩, trivial⟩

end Node

-- Only this node may be connected that was not before, or be no longer.
def Links (id : NodeId) (s t : Studio) : Prop := ∀ other ≠ id, t.connected other = s.connected other

instance {id : NodeId} : IsPreorder Studio (Links id) where
  refl _ _ _ := rfl
  trans _ _ _ h h' other hne := (h' other hne).trans (h other hne)

theorem Studio.connected_modify (s : Studio) (id other : NodeId) (connected : Bool) :
    ({ s with nodes := s.nodes.modify id fun state => { state with connected } } : Studio).connected
      other = if other = id then connected && (s.nodes[id]?).isSome else s.connected other := by
  simp only [Studio.connected, Array.getElem?_modify]
  by_cases h : other = id
  · subst h
    cases s.nodes[other]? <;> simp
  · simp [h, Ne.symm h]

theorem Node.links_connect (node : Node) (target : Target) :
    Keeps (Links node.id) (node.connect target) := by
  refine keeps_connect_of (fun endpoint => keeps_bind (fun s => ?_) fun _ => ?_) target
  · exact along_host fun _ _ => ⟨fun _ _ => rfl, trivial⟩
  · refine keeps_modify fun s other hne => ?_
    rw [s.connected_modify, if_neg hne]

-- No node is newly connected, and what is newly disconnected is not connected, these apart.
structure Falls (ids : List NodeId) (s t : Studio) : Prop where
  connected : ∀ id, t.connected id = true → s.connected id = true
  cut : ∀ id ∉ ids, (t.ledger.fate id).cut = true →
    (s.ledger.fate id).cut = true ∨ t.connected id = false

namespace Falls

variable {ids : List NodeId} {s t : Studio}

theorem of_cut (h : ∀ id ∉ ids, (t.ledger.fate id).cut = (s.ledger.fate id).cut)
    (hconnected : ∀ id, t.connected id = true → s.connected id = true) : Falls ids s t :=
  ⟨hconnected, fun id hid hcut => .inl (h id hid ▸ hcut)⟩

instance : IsPreorder Studio (Falls ids) where
  refl _ := of_cut (fun _ _ => rfl) fun _ h => h
  trans s t u h h' := by
    refine ⟨fun id hid => h.connected id (h'.connected id hid), fun id hid hcut => ?_⟩
    rcases h'.cut id hid hcut with hcut | hfree
    · refine (h.cut id hid hcut).imp_right fun hfree => Bool.eq_false_iff.2 fun hconnected => ?_
      rw [h'.connected id hconnected] at hfree
      cases hfree
    · exact .inr hfree

theorem weaken (h : Falls [] s t) : Falls ids s t :=
  ⟨h.connected, fun id _ => h.cut id List.not_mem_nil⟩

end Falls

namespace Node

theorem falls_disconnectAll {nodes : List Node}
    (h : ∀ part ∈ nodes, ∀ s, Ends part.disconnect s (fun _ t => Falls [] s t) fun _ _ => True)
    (s : Studio) : Ends (disconnectAll nodes) s (fun _ t => Falls [] s t) fun _ _ => True := by
  induction nodes generalizing s with
  | nil => exact (ends_pure ()).2 (refl_of (Falls []) s)
  | cons part rest ih =>
      rw [disconnectAll, ends_bind]
      refine (h part List.mem_cons_self s).mono (fun _ t hst => ?_) fun _ _ h => h
      exact (ih (fun other hother => h other (List.mem_cons_of_mem _ hother)) t).mono
        (fun _ u htu => trans_of (Falls []) hst htu) fun _ _ h => h

-- The node itself may count as connected until the end.
theorem falls_own (node : Node) : Keeps (Falls [node.id]) (do
    changeNode node.id fun state => { state with disconnected := true }
    node.cutHosts.forM fun host => Act.host node.context (·.disconnect host)) := by
  refine keeps_bind (keeps_modify fun t => ?_) fun _ => keeps_forM fun host _ => fun t => ?_
  · refine .of_cut (fun id hid => ?_) fun id hid => ?_
    · have hne : node.id ≠ id := fun heq => hid (List.mem_singleton.2 heq.symm)
      simp [Studio.ledger, Array.getElem?_modify, hne]
    · simp only [Studio.connected, Array.getElem?_modify] at hid ⊢
      split at hid
      case isTrue => cases hstate : t.nodes[id]? <;> simp_all
      case isFalse => exact hid
  · exact along_host fun _ _ => ⟨.of_cut (fun _ _ => rfl) fun _ h => h, trivial⟩

-- What a disconnection disconnects is not connected afterwards.
theorem falls_disconnect (node : Node) (s : Studio) :
    Ends node.disconnect s (fun _ t => Falls [] s t) fun _ _ => True := by
  induction node using induct generalizing s with
  | step node ih =>
      rw [disconnect_eq, ends_bind, ends_get]
      split
      case isTrue => exact (ends_pure ()).2 (refl_of (Falls []) s)
      case isFalse =>
          rw [← bind_assoc, ends_bind]
          refine Ends.mono (node.falls_own s) (fun _ t hst => ?_) fun _ _ _ => trivial
          rw [ends_bind]
          refine (falls_disconnectAll ih t).mono (fun _ u htu => ?_) fun _ _ h => h
          rw [changeNode, ends_modify]
          let v : Studio := { u with nodes := u.nodes.modify node.id fun state =>
            { state with connected := false } }
          have hledger : v.ledger = u.ledger := u.ledger_changeNode_eq node.id fun _ => rfl
          have hconnected (id : NodeId) :
              v.connected id = (!decide (id = node.id) && u.connected id) := by
            rw [u.connected_modify]
            split <;> simp_all
          have hfree : Falls [] u v := by
            refine .of_cut (fun id _ => by rw [hledger]) fun id hid => ?_
            rw [hconnected, Bool.and_eq_true] at hid
            exact hid.2
          have hsv : Falls [node.id] s v :=
            trans_of (Falls [node.id]) hst.1 (trans_of (Falls [node.id]) htu.weaken hfree.weaken)
          refine ⟨hsv.connected, fun id _ hcut => ?_⟩
          by_cases hid : id = node.id
          · exact .inr (by rw [hconnected, hid]; simp)
          · exact hsv.cut id (by simpa using hid) hcut

end Node

-- What can still happen to a node that has been disconnected, by way of any node that there is. A stop
-- drives none of its host nodes. A start has what was not started yet begin, and moves the level of an
-- envelope. A connection is made from where it goes out, and only what is connected counts as such.
structure Studio.Parted (s : Studio) (node : Node) : Prop where
  disconnected : (node.state s).disconnected = true
  stop : ∀ id root, s.node? id = some root → ∀ time t, (root.stop time).after s = t →
    (∀ host ∈ node.cutHosts,
      (t.engine node.context).drives host = (s.engine node.context).drives host) ∧
    ∀ other, t.connected other = s.connected other
  start : ∀ id root, s.node? id = some root → ∀ time t, (root.start time).after s = t →
    (∀ host ∈ node.cutHosts, Drives (node.Wakes s) node.context host s t) ∧
    ∀ other, t.connected other = s.connected other
  connect : ∀ id root, s.node? id = some root → ∀ target t, (root.connect target).after s = t →
    (∀ host ∈ node.cutHosts, Drives (root.Sends node.context) node.context host s t) ∧
    ∀ other ≠ id, t.connected other = s.connected other

theorem Act.Along.after {R : Studio → Studio → Prop} {act : Act Unit} {s : Studio}
    (h : Along R act s fun _ _ => True) : R s (act.after s) :=
  after_of_ends (Ends.mono h (fun _ _ h => h.1) fun _ _ h => h)

theorem Studio.parted {s : Studio} {node : Node} (hs : Housed s) (hsound : s.ledger.Sound 0)
    (hnode : s.ledger.Knows node) (hcut : (node.state s).disconnected = true) : s.Parted node := by
  have hreach {id : NodeId} {root : Node} (hroot : s.node? id = some root) :
      ∀ inner ∈ root.reach, s.ledger.Knows inner := fun inner hinner =>
    hsound.knows_of_reach (Studio.offers_of_node hsound hroot).1.known hinner
  constructor
  case disconnected => exact hcut
  case stop =>
      rintro id root hroot time _ rfl
      have hspares : Sparing node (fun _ => False) s ((root.stop time).after s) :=
        Along.after <| Node.stays_stop (fun inner hinner =>
          Node.stopStays_sparing hs hsound hnode (hreach hroot inner hinner) hcut) s (refl_of _ s)
      exact ⟨fun host hhost => (hspares.drives host hhost).eq_of_none, hspares.connected⟩
  case start =>
      rintro id root hroot time _ rfl
      have hspares : Sparing node (node.Wakes s) s ((root.start time).after s) :=
        Along.after <| Node.stays_start
          (fun inner hinner => Node.stays_startOwn hs hsound hnode (hreach hroot inner hinner))
          (fun inner hinner =>
            Node.stopStays_sparing hs hsound hnode (hreach hroot inner hinner) hcut) s (refl_of _ s)
      exact ⟨hspares.drives, hspares.connected⟩
  case connect =>
      rintro id root hroot target _ rfl
      obtain ⟨-, rfl⟩ := Studio.offers_of_node hsound hroot
      exact ⟨fun host _ => (root.drives_connect target _ host s).after,
        (root.links_connect target s).after⟩

namespace Session

-- A disconnection is for good. What is disconnected along with a node does not count as connected
-- afterwards. Whatever is done to the studio then, all that the node reaches stays disconnected; no stop
-- drives it any more, a start drives what has not been started yet and no more, and a connection what it
-- goes out from, which alone counts as connected again.
theorem disconnected_for_good (rate : Float) (commands more : List Command) {id : NodeId} {node : Node}
    (hnode : (run rate commands).studio.node? id = some node) :
    (∀ t, node.disconnect (run rate commands).studio = .ok () t → ∀ inner ∈ node.reach,
      (inner.state (run rate commands).studio).disconnected = false →
      (inner.state t).disconnected = true ∧ t.connected inner.id = false) ∧
    ((node.state (run rate commands).studio).disconnected = true →
      ∀ inner ∈ node.reach, (run rate (commands ++ more)).studio.Parted inner) := by
  have hlawful := lawful_run rate commands
  have hs : (run rate commands).studio.ledger.Sound 0 := hlawful.sound
  have hknown := (Studio.offers_of_node hs hnode).1.known
  refine ⟨fun t ht inner hinner hfresh => ?_, fun hcut inner hinner => ?_⟩
  · have hinside := hs.knows_of_reach hknown hinner
    have hcut := (cut_iff_of_disconnect hnode ht hinside).2 (.inr hinner)
    have hfalls := ends_of_ok ht (node.falls_disconnect _)
    rw [Node.state_disconnected] at hfresh ⊢
    refine ⟨hcut, (hfalls.cut inner.id List.not_mem_nil hcut).resolve_left ?_⟩
    rw [hfresh]
    exact Bool.false_ne_true
  · have hgrows := (moves_run rate commands more).grows
    have hinside := hs.knows_of_reach hknown hinner
    rw [Node.state_disconnected] at hcut
    have hlost := hlawful.cuts.cut_of_reach hs rfl hknown hcut hinner
    refine Studio.parted (housed_run rate _) (lawful_run rate _).sound (hinside.grow hgrows) ?_
    rw [Node.state_disconnected]
    exact (hgrows.fate _).cut hlost

-- A tone that is disconnected after it was put into a series with a gain.
def parted : List Command := [
  .make 0 (.oscillator .sine (.fixed 440) none),
  .make 0 (.gain (.fixed 1)),
  .make 0 (.series 0 [1]),
  .disconnect 0]

-- Once it has been started, a stop of the series still passes it by.
theorem tone_parted : ∃ tone chain t, (run 44100 parted).studio.node? 0 = some tone ∧
    (run 44100 (parted ++ [.start 2 0])).studio.node? 2 = some chain ∧
    (run 44100 (parted ++ [.start 2 0])).studio.Parted tone ∧
    (chain.stop 1).after (run 44100 (parted ++ [.start 2 0])).studio = t ∧
    (t.engine 0).drives 1 = ((run 44100 (parted ++ [.start 2 0])).studio.engine 0).drives 1 := by
  have hsome : ((run 44100 parted).studio.node? 0).isSome = true := by decide +kernel
  have hsome' : ((run 44100 (parted ++ [.start 2 0])).studio.node? 2).isSome = true := by
    decide +kernel
  obtain ⟨tone, htone⟩ := Option.isSome_iff_exists.1 hsome
  obtain ⟨chain, hchain⟩ := Option.isSome_iff_exists.1 hsome'
  have hfacts : ∀ tone ∈ (run 44100 parted).studio.node? 0,
      (tone.state (run 44100 parted).studio).disconnected = true ∧ tone.context = 0 ∧
        1 ∈ tone.cutHosts := by
    decide +kernel
  obtain ⟨hcut, hcontext, hhost⟩ := hfacts tone htone
  have hparted := (disconnected_for_good 44100 parted [.start 2 0] htone).2 hcut tone
    tone.self_mem_reach
  have hstop := (hparted.stop 2 chain hchain 1 _ rfl).1 1 hhost
  rw [hcontext] at hstop
  exact ⟨tone, chain, _, htone, hchain, hparted, rfl, hstop⟩

-- But the start had the tone begin, and it can be connected once more.
theorem parted_returns : ∃ tone ∈ (run 44100 parted).studio.node? 0,
    ∃ chain ∈ (run 44100 parted).studio.node? 2,
      (tone.state (run 44100 parted).studio).disconnected = true ∧
      ((run 44100 parted).studio.engine 0).starts.isEmpty = true ∧
      (((chain.start 0).after (run 44100 parted).studio).engine 0).starts.map Prod.fst = [1] ∧
      (run 44100 parted).studio.connected 0 = false ∧
      ((tone.connect .output).after (run 44100 parted).studio).connected 0 = true := by
  decide +kernel

end Session

end Patchbay
