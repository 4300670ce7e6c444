import Patchbay.Proofs.Session.Commands

namespace Patchbay

open Act

-- The kind of a host node that is there; the final output is of none.
def Studio.kind? (s : Studio) (c : ContextId) (h : HostId) : Option (Option NodeKind) :=
  ((s.engine c).nodes[h]?).map HostNode.kind

-- No node is new, and whatever host nodes there were are of the same kind.
structure Kept (s t : Studio) : Prop where
  contexts : t.engines.size = s.engines.size
  nodes : ∀ id, t.node? id = s.node? id
  kinds : ∀ c h kind, s.kind? c h = some kind → t.kind? c h = some kind

namespace Kept

variable {s t : Studio}

instance : IsPreorder Studio Kept where
  refl _ := ⟨rfl, fun _ => rfl, fun _ _ _ h => h⟩
  trans _ _ _ h h' := ⟨h'.contexts.trans h.contexts, fun id => (h'.nodes id).trans (h.nodes id),
    fun c host kind hkind => h'.kinds c host kind (h.kinds c host kind hkind)⟩

theorem of_unmoved (h : Unmoved s t) : Kept s t where
  contexts := h.contexts
  nodes id := by
    have hnode := congrArg (Option.map Prod.fst) (h.nodes id)
    rwa [Option.map_map, Option.map_map] at hnode
  kinds c host kind hkind := by
    have hhost := congrArg (Option.map Prod.fst) (h.hosts c host)
    rw [Option.map_map, Option.map_map] at hhost
    exact hhost.trans hkind

theorem of_change (id : NodeId) {f : NodeState → NodeState}
    (hf : ∀ state, (f state).node = state.node) :
    Kept s { s with nodes := s.nodes.modify id f } where
  contexts := rfl
  nodes other := by
    simp only [Studio.node?, Array.getElem?_modify]
    split
    case isTrue => cases s.nodes[other]? <;> simp [hf]
    case isFalse => rfl
  kinds _ _ _ h := h

theorem of_engine (context : ContextId) {engine : Engine}
    (h : ∀ (host : HostId) kind, ((s.engine context).nodes[host]?).map HostNode.kind = some kind →
      (engine.nodes[host]?).map HostNode.kind = some kind) :
    Kept s { s with engines := s.engines.modify context fun _ => engine } where
  contexts := Array.size_modify
  nodes _ := rfl
  kinds c host kind hkind := by
    rw [Studio.kind?, s.engine_setEngine]
    split
    case isTrue hc => exact h host kind (hc.1 ▸ hkind)
    case isFalse => exact hkind

-- A host node that was there is changed, and keeps its kind.
theorem of_touch (context : ContextId) {engine : Engine} (host : HostId) {f : HostNode → HostNode}
    (hnodes : engine.nodes = (s.engine context).nodes.modify host f)
    (hf : ∀ node, (f node).kind = node.kind) :
    Kept s { s with engines := s.engines.modify context fun _ => engine } := by
  refine of_engine context fun h kind hkind => ?_
  rw [hnodes, Array.getElem?_modify]
  split
  case isTrue heq => cases hnode : (s.engine context).nodes[h]? <;> simp_all
  case isFalse => exact hkind

theorem keeps_changeNode (id : NodeId) {f : NodeState → NodeState}
    (hf : ∀ state, (f state).node = state.node) : Keeps Kept (changeNode id f) :=
  keeps_modify fun _ => of_change id hf

theorem of_request {context : ContextId} {request : Request} {engine : Engine}
    (h : request.send (s.engine context) = .ok engine) :
    Kept s { s with engines := s.engines.modify context fun _ => engine } :=
  of_touch context request.host (Request.nodes_send h).2 fun _ => by cases request <;> rfl

instance : Wires Kept where
  request _ _ _ := along_host fun _ h => ⟨of_request h, trivial⟩
  started id := keeps_changeNode id fun _ => rfl
  connected id _ := keeps_changeNode id fun _ => rfl

theorem of_cut {context : ContextId} {host : HostId} {engine : Engine}
    (h : (s.engine context).disconnect host = .ok engine) :
    Kept s { s with engines := s.engines.modify context fun _ => engine } := by
  obtain ⟨node, -, h⟩ := ok_of_bind h
  cases h
  exact of_touch (f := fun node => { node with disconnected := true }) context host rfl fun _ => rfl

theorem keeps_cutHost (context : ContextId) (host : HostId) :
    Keeps Kept (Act.host context (·.disconnect host)) :=
  fun _ => along_host fun _ h => ⟨of_cut h, trivial⟩

theorem of_watch (context : ContextId) (host : HostId) (watcher : Watcher) : Kept s { s with
    engines := s.engines.modify context fun _ => (s.engine context).watch host watcher } :=
  of_touch context host (f := fun node => { node with watchers := node.watchers ++ [watcher] }) rfl
    fun _ => rfl

theorem keeps_watched (context : ContextId) (host : HostId) (watcher : Watcher) :
    Keeps Kept (do setEngine context ((← engine context).watch host watcher)) :=
  fun _ => along_read (along_modify (of_watch context host watcher))

theorem of_create (context : ContextId) (kind : NodeKind) : Kept s { s with
    engines := s.engines.modify context fun _ => ((s.engine context).create kind).2 } := by
  refine .of_engine context fun host other hother => ?_
  have hne : host ≠ (s.engine context).nodes.size := by
    rintro rfl
    simp at hother
  simp only [Engine.create, Engine.record, Array.getElem?_push]
  rw [if_neg hne]
  exact hother

-- What is created is of its kind, and was not there before.
theorem ends_createHost (context : ContextId) (kind : NodeKind) :
    Ends (createHost context kind) s
      (fun host t => Kept s t ∧ s.kind? context host = none ∧
        (context < s.engines.size → t.kind? context host = some (some kind)))
      fun _ _ => False := by
  let host := (s.engine context).nodes.size
  let t : Studio := { s with engines := s.engines.modify context fun _ =>
    ((s.engine context).create kind).2 }
  have hact : createHost context kind s = .ok host t := rfl
  refine ends_of_eq hact ⟨of_create context kind, by simp [Studio.kind?, host], fun hc => ?_⟩
  have hengine : t.engine context = ((s.engine context).create kind).2 := by
    rw [s.engine_setEngine, if_pos ⟨rfl, hc⟩]
  simp [Studio.kind?, hengine, host, Engine.create, Engine.record, HostNode.ofKind]

theorem keeps_createHost (context : ContextId) (kind : NodeKind) :
    Keeps Kept (createHost context kind) :=
  fun _ => Ends.mono (ends_createHost context kind) (fun _ _ h => ⟨h.1, trivial⟩)
    fun _ _ h => h.elim

theorem keeps_clearCalls (context : ContextId) : Keeps Kept (Act.clearCalls context) :=
  fun _ => along_read (along_modify (of_engine context fun _ _ h => h))

theorem keeps_disconnect (node : Node) : Keeps Kept node.disconnect :=
  node.keeps_disconnect (fun inner _ => keeps_changeNode inner.id fun _ => rfl) keeps_cutHost
    fun id => keeps_changeNode id fun _ => rfl

end Kept

-- What holds across makers, and as long as nodes and kinds are kept, holds across all there is.
theorem Performs.of_kept {P : Studio → Prop} [Crafts (Preserves P)]
    (hkept : ∀ s t, Kept s t → Preserves P s t)
    (hopen : ∀ {s : Studio}, P s → s.ledger.Sound 0 → ∀ rate,
      P { s with engines := s.engines.push (.new rate) }) : Performs (Preserves P) :=
  have hunmoved (s t : Studio) (h : Unmoved s t) : Preserves P s t := hkept s t (.of_unmoved h)
  have hbuild (b : BuilderId) (patch : Patch) : Keeps (Preserves P) (Builder.build b patch) :=
    Builder.keeps_build (fun _ _ => keeps_aside hunmoved (fun _ => rfl) fun _ => rfl) patch
  { (inferInstance : Crafts (Preserves P)), Connects.of_finer (Q := Kept) hkept with
    read := keeps_readAside hunmoved
    opened := keeps_openBuilder hunmoved
    patched := fun context _ => keeps_bind (keeps_readAside hunmoved _) fun patch =>
      keeps_bind (keeps_openBuilder hunmoved context) fun b => hbuild b patch
    built := hbuild
    schedule := fun context host param event =>
      (Schedules.schedule context host param event).mono hkept
    stop := fun context host time => (Stops.stop context host time).mono hkept
    unmoved := hunmoved
    openContext := fun _ rate hsound => along_openContext fun hs => hopen hs hsound rate
    start := fun s node time _ _ => (node.keeps_start time).mono hkept s
    disconnect := fun s node _ _ => (Kept.keeps_disconnect node).mono hkept s }

-- A call of a host itself makes host nodes at most, and none for a node.
theorem Kept.keeps_direct {s : Studio} {command : Command} (hdirect : command.isDirect = true) :
    ∀ act, command.act? s = some act → Keeps Kept act := by
  cases command with
  | create context kind =>
      exact forall_given fun _ _ => forall_some (keeps_map _ (keeps_createHost context kind))
  | request context request => exact forall_some (Wires.request context request)
  | silence context host => exact forall_given fun _ _ => forall_some (keeps_cutHost context host)
  | watch context host tag => exact forall_some (keeps_watched context host (.tag tag))
  | plug context host param value =>
      exact forall_given fun drive _ =>
        forall_some (keeps_map _ (Drive.keeps_plug context host param drive))
  | schedule contour context host param time =>
      exact forall_some (contour.keeps_schedule context host param time)
  | clearCalls context => exact forall_some (keeps_clearCalls context)
  | _ => cases hdirect

-- Calls of a host itself keep nodes and kinds, so what is made is all that counts.
theorem Session.invariant_of_kept {P : Studio → Prop} [Performs (Preserves P)] (rate : Float)
    {commands : List Command} (hnew : P (.new rate)) (hkept : ∀ s t, Kept s t → Preserves P s t) :
    P (run rate commands).studio := by
  refine invariant (fun _ => True) rate hnew ?_ fun _ _ => trivial
  intro s hs command _ act hact
  cases hdirect : command.isDirect with
  | true => exact (Kept.keeps_direct hdirect act hact).mono hkept s
  | false => exact Command.performs hs hdirect act hact

namespace Studio

-- The host nodes of a node are there, each once; that of an envelope is a gain.
structure Houses (s : Studio) (node : Node) : Prop where
  nodup : node.cutHosts.Nodup
  there : ∀ host ∈ node.cutHosts, ∃ kind, s.kind? node.context host = some kind
  shapes : ∀ info host attack release, node = .envelope info host attack release →
    s.kind? info.context host = some (some .gain)

-- A host node that no node has taken yet.
structure Reserved (s : Studio) (c : ContextId) (host : HostId) (kind : NodeKind) : Prop where
  kind : s.kind? c host = some (some kind)
  spare : ∀ id node, s.node? id = some node → node.context = c → host ∉ node.cutHosts

end Studio

-- As far as contexts have been opened, nodes are housed, and apart from one another and from the
-- final output.
structure Housed (s : Studio) : Prop where
  outputs : ∀ c, s.kind? c Engine.destination = some none
  houses : ∀ id node, s.node? id = some node → node.context < s.engines.size → s.Houses node
  apart : ∀ id other node node', s.node? id = some node → s.node? other = some node' →
    node.context < s.engines.size → node'.context = node.context →
    ∀ host ∈ node.cutHosts, host ∈ node'.cutHosts → id = other

section Kept

variable {s t : Studio} (h : Kept s t)
include h

theorem Kept.houses {node : Node} (hs : s.Houses node) : t.Houses node where
  nodup := hs.nodup
  there host hhost := by
    obtain ⟨kind, hkind⟩ := hs.there host hhost
    exact ⟨kind, h.kinds _ host kind hkind⟩
  shapes info host attack release heq := h.kinds _ host _ (hs.shapes info host attack release heq)

theorem Kept.reserved {c : ContextId} {host : HostId} {kind : NodeKind}
    (hs : s.Reserved c host kind) : t.Reserved c host kind where
  kind := h.kinds c host kind hs.kind
  spare id node hnode := hs.spare id node (h.nodes id ▸ hnode)

theorem Kept.housed : Preserves Housed s t := fun hs => by
  constructor
  case outputs => exact fun c => h.kinds c Engine.destination none (hs.outputs c)
  case houses =>
      intro id node hnode hc
      rw [h.nodes] at hnode
      rw [h.contexts] at hc
      exact h.houses (hs.houses id node hnode hc)
  case apart =>
      intro id other node node' hnode hnode' hc
      rw [h.nodes] at hnode hnode'
      rw [h.contexts] at hc
      exact hs.apart id other node node' hnode hnode' hc

end Kept

theorem unmoved_housed (s t : Studio) (h : Unmoved s t) : Preserves Housed s t :=
  (Kept.of_unmoved h).housed

theorem Studio.node?_push (s : Studio) (state : NodeState) (id : NodeId) :
    ({ s with nodes := s.nodes.push state } : Studio).node? id =
      if id = s.nodes.size then some state.node else s.node? id := by
  simp only [node?, Array.getElem?_push]
  split <;> rfl

-- A new node takes host nodes that are reserved for it.
theorem Housed.push {s : Studio} {state : NodeState} (hs : Housed s)
    (hhouses : state.node.context < s.engines.size → s.Houses state.node)
    (hspare : state.node.context < s.engines.size → ∀ host ∈ state.node.cutHosts,
      ∃ kind, s.Reserved state.node.context host kind) :
    Housed { s with nodes := s.nodes.push state } := by
  constructor
  case outputs => exact hs.outputs
  case houses =>
      intro id node hnode hc
      rw [s.node?_push] at hnode
      split at hnode
      case isTrue =>
          cases hnode
          have hnew := hhouses hc
          exact ⟨hnew.nodup, hnew.there, hnew.shapes⟩
      case isFalse =>
          have hold := hs.houses id node hnode hc
          exact ⟨hold.nodup, hold.there, hold.shapes⟩
  case apart =>
      intro id other node node' hnode hnode' hc hcontext host hhost hhost'
      rw [s.node?_push] at hnode hnode'
      split at hnode <;> split at hnode'
      case isTrue.isTrue hid hother => rw [hid, hother]
      case isTrue.isFalse =>
          cases hnode
          obtain ⟨kind, hreserved⟩ := hspare hc host hhost
          exact absurd hhost' (hreserved.spare other node' hnode' hcontext)
      case isFalse.isTrue =>
          cases hnode'
          rw [hcontext] at hspare
          obtain ⟨kind, hreserved⟩ := hspare hc host hhost'
          exact absurd hhost (hreserved.spare id node hnode rfl)
      case isFalse.isFalse =>
          exact hs.apart id other node node' hnode hnode' hc hcontext host hhost hhost'

variable {s : Studio} {context : ContextId}

theorem keeps_housed {α : Type} {act : Act α}
    (h : ∀ s, Housed s → Along (Preserves Housed) act s fun _ _ => True) :
    Keeps (Preserves Housed) act :=
  keeps_where (fun _ _ hvoid hs => absurd hs hvoid) h

theorem along_kept {α : Type} {act : Act α} (h : Keeps Kept act) :
    Along (Preserves Housed) act s fun _ t => Kept s t :=
  Ends.mono (h s) (fun _ _ h => ⟨h.1.housed, h.1⟩) fun _ _ h => h.housed

-- What is created is free to be taken, and was not there before.
theorem along_createHost (hs : Housed s) (kind : NodeKind) :
    Along (Preserves Housed) (createHost context kind) s fun host t => Kept s t ∧
      (context < s.engines.size → s.kind? context host = none ∧ t.Reserved context host kind) := by
  refine Ends.mono (Kept.ends_createHost context kind) (fun host t ⟨hkept, hfresh, hkind⟩ => ?_)
    fun _ _ h => h.elim
  refine ⟨hkept.housed, hkept, fun hc => ⟨hfresh, hkind hc, ?_⟩⟩
  rintro id node hnode rfl hmem
  rw [hkept.nodes] at hnode
  obtain ⟨k, hk⟩ := (hs.houses id node hnode hc).there host hmem
  rw [hfresh] at hk
  cases hk

theorem along_enrol {label : String} {duration release : Option Float} {make : NodeInfo → Node}
    (hs : Housed s) (hinfo : ∀ info, (make info).info = info)
    (hnodup : context < s.engines.size → ∀ info, (make info).cutHosts.Nodup)
    (hreserved : context < s.engines.size → ∀ info, ∀ host ∈ (make info).cutHosts,
      ∃ kind, s.Reserved context host kind)
    (hshapes : context < s.engines.size → ∀ info own host attack release,
      make info = .envelope own host attack release → s.kind? context host = some (some .gain)) :
    Along (Preserves Housed) (Node.enrol context label duration release make) s
      fun _ _ => True := by
  refine Ends.mono (Node.ends_enrolled s) (fun node t ht => ⟨?_, trivial⟩) fun _ _ h => h.elim
  obtain ⟨⟨info, rfl, rfl, -⟩, state, hstanding, huntouched⟩ := ht
  have hnode : state.node = make info := congrArg Prod.fst hstanding
  have hcontext : (make info).context = info.context := congrArg NodeInfo.context (hinfo info)
  have hpush : Housed { s with nodes := s.nodes.push state } := by
    apply hs.push <;> rw [hnode, hcontext] <;> intro hc
    · refine ⟨hnodup hc info, fun host hhost => ?_, fun own host attack release heq => ?_⟩
      · obtain ⟨kind, hkind⟩ := hreserved hc info host hhost
        exact ⟨some kind, hcontext ▸ hkind.kind⟩
      · have hown : own.context = info.context := by
          rw [← hcontext, heq]
          rfl
        exact hown ▸ hshapes hc info own host attack release heq
    · exact hreserved hc info
  exact fun _ => (Kept.of_unmoved huntouched.toUnmoved).housed hpush

-- A node that has no host node of its own to disconnect.
theorem along_enrolBare {label : String} {duration release : Option Float}
    {make : NodeInfo → Node} (hs : Housed s) (hinfo : ∀ info, (make info).info = info)
    (hbare : ∀ info, (make info).cutHosts = []) :
    Along (Preserves Housed) (Node.enrol context label duration release make) s
      fun _ _ => True := by
  apply along_enrol hs hinfo
  case hnodup =>
      intro _ info
      rw [hbare]
      exact List.nodup_nil
  case hreserved =>
      intro _ info host hhost
      rw [hbare] at hhost
      cases hhost
  case hshapes =>
      intro _ info own host attack release heq
      have hnil := hbare info
      rw [heq] at hnil
      cases hnil

namespace Node

theorem housed_ofKind (kind : NodeKind) (params : List (Param × Option Drive)) :
    Keeps (Preserves Housed) (ofKind context kind params) := by
  refine keeps_housed fun s hs => ?_
  refine along_bind (along_createHost hs kind) fun host t _ ⟨hst, hnew⟩ => ?_
  have hplugs : Keeps Kept (bind context host kind params) := fun u =>
    (along_plugs params u).mono fun _ _ _ _ => trivial
  refine along_bind (along_kept hplugs) fun modulators u _ htu => ?_
  have hsu : Kept s u := trans_of Kept hst htu
  have henrol : Along (Preserves Housed) (enrol context (kind.name ++ hostLabel host)
      kind.naturalLength (longestRelease modulators)
      fun info => .leaf info host kind.isSource kind.params modulators) u fun _ _ => True := by
    apply along_enrol (hsu.housed hs) (fun _ => rfl)
    case hnodup =>
        intro _ info
        rw [cutHosts]
        split <;> simp
    case hreserved =>
        intro hc info own hown
        obtain rfl : own = host := by simpa [ownHosts] using mem_ownHosts_of_cut hown
        exact ⟨kind, htu.reserved (hnew (hsu.contexts ▸ hc)).2⟩
    case hshapes =>
        intro _ _ _ _ _ _ heq
        cases heq
  refine along_bind henrol fun node v _ _ => ?_
  split
  case isTrue =>
      have hwatched := keeps_bind (Kept.keeps_watched context host (.node node.id))
        fun _ => keeps_pure node
      have hwatched' := hwatched.mono (fun _ _ h => h.housed) v
      simpa only [bind_assoc] using hwatched'
  case isFalse => exact along_pure trivial

theorem housed_shaper (attack : Contour) (release : Option Contour) :
    Keeps (Preserves Housed) (shaper context attack release) := by
  refine keeps_housed fun s hs => ?_
  refine along_bind (along_createHost hs .gain) fun host t _ ⟨hst, hnew⟩ => ?_
  refine along_bind (along_kept (Connects.setParam context host .gain 0)) fun _ u _ htu => ?_
  have hsu : Kept s u := trans_of Kept hst htu
  apply along_enrol (hsu.housed hs) (fun _ => rfl)
  case hnodup => exact fun _ info => by simp [cutHosts]
  case hreserved =>
      intro hc info own hown
      obtain rfl : own = host := List.mem_singleton.1 hown
      exact ⟨.gain, htu.reserved (hnew (hsu.contexts ▸ hc)).2⟩
  case hshapes =>
      intro hc info own host' attack' release' heq
      cases heq
      exact (htu.reserved (hnew (hsu.contexts ▸ hc)).2).kind

theorem housed_destination : Keeps (Preserves Housed) (destination context) :=
  keeps_housed fun _ hs => along_enrolBare hs (fun _ => rfl) fun _ => by simp [cutHosts]

theorem housed_inSeries (head : Node) (tail : List Node) :
    Keeps (Preserves Housed) (inSeries head tail) := by
  refine keeps_housed fun s hs => ?_
  unfold inSeries
  split
  · exact along_pure trivial
  · refine along_bind (along_kept (keeps_chain head tail)) fun _ t _ hst => ?_
    exact along_enrolBare (hst.housed hs) (fun _ => rfl) fun _ => rfl

theorem housed_inParallel (first : Node) (rest : List Node) :
    Keeps (Preserves Housed) (inParallel first rest) := by
  refine keeps_housed fun s hs => ?_
  refine along_bind (along_createHost hs .gain) fun input t _ ⟨hst, hinput⟩ => ?_
  refine along_bind (along_createHost (hst.housed hs) .gain) fun output u _ ⟨htu, houtput⟩ => ?_
  refine along_bind (along_kept (Connects.setParam _ input .gain 1)) fun _ v _ huv => ?_
  refine along_bind (along_kept (Connects.setParam _ output .gain 1)) fun _ w _ hvw => ?_
  have hjoin : Keeps Kept ((first :: rest).forM (joinBranch first.context input output)) :=
    keeps_forM fun branch _ => keeps_joinBranch branch
  refine along_bind (along_kept hjoin) fun _ x _ hwx => ?_
  have hux : Kept u x := trans_of Kept (trans_of Kept huv hvw) hwx
  have htx : Kept t x := trans_of Kept htu hux
  have hsx : Kept s x := trans_of Kept hst htx
  apply along_enrol (hsx.housed hs) (fun _ => rfl)
  case hnodup =>
      intro hc info
      -- The input was there before the output was created.
      have hne : input ≠ output := by
        rintro rfl
        have hthere := (hinput (hsx.contexts ▸ hc)).2.kind
        rw [(houtput (htx.contexts ▸ hc)).1] at hthere
        cases hthere
      simpa [cutHosts] using hne
  case hreserved =>
      intro hc info own hown
      obtain rfl | rfl : own = input ∨ own = output := by simpa [cutHosts] using hown
      · exact ⟨.gain, htx.reserved (hinput (hsx.contexts ▸ hc)).2⟩
      · exact ⟨.gain, hux.reserved (houtput (htx.contexts ▸ hc)).2⟩
  case hshapes =>
      intro _ _ _ _ _ _ heq
      cases heq

theorem housed_wrap (inner : Node) (others : List Node) :
    Keeps (Preserves Housed) (wrap inner others) := by
  refine keeps_housed fun s hs => ?_
  unfold wrap
  split
  · exact along_pure trivial
  · refine along_bind (along_enrolBare hs (fun _ => rfl) fun _ => rfl) fun node t _ _ => ?_
    exact (keeps_inheritConnected (R := Kept) inner node).mono (fun _ _ h => h.housed) t

end Node

instance : Crafts (Preserves Housed) where
  ofKind _ := Node.housed_ofKind
  shaper _ := Node.housed_shaper
  destination _ := Node.housed_destination
  inSeries := Node.housed_inSeries
  inParallel := Node.housed_inParallel
  wrap := Node.housed_wrap
  wired node target := (node.keeps_connect target).mono fun _ _ h => Kept.housed h
  warned _ := keeps_aside unmoved_housed (fun _ => rfl) fun _ => rfl

-- No node is there yet in a context that is about to be opened.
theorem Housed.openContext {s : Studio} (hs : Housed s) (hsound : s.ledger.Sound 0) (rate : Float) :
    Housed { s with engines := s.engines.push (.new rate) } := by
  have hopened {id : NodeId} {node : Node} (h : s.node? id = some node) :
      node.context < s.engines.size :=
    (hsound.formed (Studio.offers_of_node hsound h).1.known).opened
  have hkind (c : ContextId) (host : HostId) :
      ({ s with engines := s.engines.push (.new rate) } : Studio).kind? c host = s.kind? c host := by
    rw [Studio.kind?, (s.engine_opened rate c).1, ← Studio.kind?]
  constructor
  case outputs =>
      intro c
      rw [hkind]
      exact hs.outputs c
  case houses =>
      intro id node hnode _
      have hhouses := hs.houses id node hnode (hopened hnode)
      refine ⟨hhouses.nodup, fun host hhost => ?_, fun info host attack release heq => ?_⟩
      · rw [hkind]
        exact hhouses.there host hhost
      · rw [hkind]
        exact hhouses.shapes info host attack release heq
  case apart =>
      intro id other node node' hnode hnode' _
      exact hs.apart id other node node' hnode hnode' (hopened hnode)

instance : Performs (Preserves Housed) :=
  .of_kept (fun _ _ => Kept.housed) fun hs => hs.openContext

namespace Session

-- At every point of every run, calls of a host itself among it.
theorem housed_run (rate : Float) (commands : List Command) : Housed (run rate commands).studio := by
  have hnew : Housed (.new rate) := by
    constructor
    case outputs => exact fun c => by cases c <;> rfl
    case houses => exact fun id node hnode => by simp [Studio.node?, Studio.new] at hnode
    case apart => exact fun id other node node' hnode => by simp [Studio.node?, Studio.new] at hnode
  exact invariant_of_kept rate hnew fun _ _ => Kept.housed

end Session

end Patchbay
