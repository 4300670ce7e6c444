import Patchbay.Proofs.Wiring.Contexts
import Patchbay.Proofs.Host.Ownership
import Patchbay.Proofs.Host.Log

namespace Patchbay

open Act

-- Something of it can be connected to.
def Engine.admits (engine : Engine) : Endpoint → Bool
  | .node host => engine.inputs host ≠ 0
  | .param host param => (engine.param? host param).isSome

theorem Engine.param?_eq (engine : Engine) (host : HostId) (param : Param) :
    (engine.param? host param).isSome = (engine.nodes[host]?).any (·.hasParam param) := by
  unfold param? HostNode.param?
  cases engine.nodes[host]? with
  | none => rfl
  | some node =>
      rw [Option.bind_some, Option.any_some]
      cases node.hasParam param <;> rfl

theorem Engine.connect_ok_iff {engine : Engine} {source : HostId} {endpoint : Endpoint} :
    (∃ after, engine.connect source endpoint = .ok after) ↔
      (engine.nodes[source]?).isSome = true ∧ engine.admits endpoint = true := by
  constructor
  · rintro ⟨after, h⟩
    obtain ⟨own, hown, h⟩ := ok_of_bind h
    refine ⟨by rw [find_eq_ok.1 hown]; rfl, ?_⟩
    cases endpoint with
    | node host =>
        obtain ⟨other, hother, h⟩ := ok_of_bind h
        obtain ⟨hinputs, -⟩ := ok_of_check h
        simpa [admits, inputs, find_eq_ok.1 hother] using hinputs
    | param host param =>
        obtain ⟨other, hother, h⟩ := ok_of_bind h
        obtain ⟨hparam, -⟩ := ok_of_check h
        rw [admits, param?_eq, find_eq_ok.1 hother]
        simpa using hparam
  · rintro ⟨hsource, hadmits⟩
    obtain ⟨own, hown⟩ := Option.isSome_iff_exists.1 hsource
    refine ⟨engine.record (.connect source endpoint), ?_⟩
    cases endpoint with
    | node host =>
        cases hother : engine.nodes[host]? with
        | none => simp [admits, inputs, hother] at hadmits
        | some other =>
            have hinputs : other.inputs ≠ 0 := by simpa [admits, inputs, hother] using hadmits
            simp only [connect, find_eq_ok.2 hown, find_eq_ok.2 hother]
            change (if other.inputs = 0 then _ else _) = _
            rw [if_neg hinputs]
            rfl
    | param host param =>
        rw [admits, param?_eq] at hadmits
        obtain ⟨other, hother, hhas⟩ := (Option.any_eq_true _ _).1 hadmits
        simp only [connect, find_eq_ok.2 hown, find_eq_ok.2 hother]
        change (if (!other.hasParam param) = true then _ else _) = _
        rw [hhas]
        rfl

namespace Node

-- The node whose output it is heard by.
mutual
def outlet : Node → Node
  | .leaf info host source params modulators => .leaf info host source params modulators
  | .envelope info host attack release => .envelope info host attack release
  | .series _ head tail => lastOutlet head.outlet tail
  | .parallel info input output branches => .parallel info input output branches
  | .wrapped _ inner _ => inner.outlet

def lastOutlet (outlet : Node) : List Node → Node
  | [] => outlet
  | node :: rest => lastOutlet node.outlet rest
end

-- A chain is heard by one of its nodes, by the host node of that.
theorem lastOutlet_eq (head : Node) (tail : List Node) : ∃ part ∈ head :: tail,
    lastOutlet head.outlet tail = part.outlet ∧ lastHost head.outputHost tail = part.outputHost := by
  induction tail generalizing head with
  | nil => exact ⟨head, List.mem_cons_self, rfl, rfl⟩
  | cons next rest ih =>
      obtain ⟨part, hpart, heq⟩ := ih next
      exact ⟨part, List.mem_cons_of_mem head hpart, heq⟩

-- It is a node that is reached, and has the host node for its own.
theorem outlet_spec (node : Node) : node.outlet ∈ node.reach ∧ node.outputHost ∈ node.outlet.ownHosts := by
  induction node using induct with
  | step node ih =>
      have hpart {part : Node} (hpart : part ∈ node.parts) (houtlet : node.outlet = part.outlet)
          (hhost : node.outputHost = part.outputHost) :
          node.outlet ∈ node.reach ∧ node.outputHost ∈ node.outlet.ownHosts := by
        obtain ⟨hreach, hown⟩ := ih part hpart
        rw [houtlet, hhost]
        exact ⟨reach_trans hreach (part_mem_reach hpart), hown⟩
      cases node with
      | leaf | envelope | parallel => exact ⟨self_mem_reach _, by simp [outlet, outputHost, ownHosts]⟩
      | series info head tail =>
          obtain ⟨part, hmem, houtlet, hhost⟩ := lastOutlet_eq head tail
          exact hpart hmem houtlet hhost
      | wrapped info inner others => exact hpart List.mem_cons_self rfl rfl

-- A parameter that cannot be found is unknown.
theorem paramHost_error {node : Node} {param : Param} {e : Error}
    (h : node.paramHost param = .error e) : ∃ label, e = .unknownParam label param := by
  induction node using induct with
  | step node ih =>
      cases node with
      | leaf info host source params modulators =>
          rw [paramHost] at h
          split at h
          · cases h
          · exact ⟨_, (Except.error.inj h).symm⟩
      | envelope info host attack release =>
          rw [paramHost] at h
          split at h
          · cases h
          · exact ⟨_, (Except.error.inj h).symm⟩
      | parallel info input output branches => exact ⟨_, (Except.error.inj h).symm⟩
      | series info head tail => exact ih head List.mem_cons_self h
      | wrapped info inner others => exact ih inner List.mem_cons_self h

end Node

-- What a node stands by at its front: a host node with the parameters that it names, a gain, or a node
-- of its own context.
def Studio.Fronts (s : Studio) : Node → Prop
  | .leaf info host _ params _ => ∀ param, params.contains param = true →
    ∃ kind, s.kind? info.context host = some (some kind) ∧ kind.params.contains param = true
  | .envelope info host _ _ => s.kind? info.context host = some (some .gain)
  | .series info head _ => head.context = info.context
  | .parallel info input _ _ => s.kind? info.context input = some (some .gain)
  | .wrapped info inner _ => inner.context = info.context

-- So do all nodes, as far as contexts have been opened.
def Routed (s : Studio) : Prop :=
  ∀ id node, s.node? id = some node → node.context < s.engines.size → s.Fronts node

section Kept

variable {s t : Studio}

theorem Studio.Fronts.of_kinds {node : Node} (hs : s.Fronts node)
    (hkinds : ∀ c h kind, s.kind? c h = some kind → t.kind? c h = some kind) : t.Fronts node := by
  cases node with
  | leaf info host source params modulators =>
      intro param hparam
      obtain ⟨kind, hkind, hhas⟩ := hs param hparam
      exact ⟨kind, hkinds _ _ _ hkind, hhas⟩
  | envelope | parallel => exact hkinds _ _ _ hs
  | series | wrapped => exact hs

theorem Kept.routed (h : Kept s t) : Preserves Routed s t := by
  intro hs id node hnode hc
  rw [h.nodes] at hnode
  rw [h.contexts] at hc
  exact (hs id node hnode hc).of_kinds h.kinds

end Kept

theorem unmoved_routed (s t : Studio) (h : Unmoved s t) : Preserves Routed s t :=
  (Kept.of_unmoved h).routed

section Making

variable {s : Studio} {context : ContextId}

theorem Routed.push {state : NodeState} (hs : Routed s)
    (hfronts : state.node.context < s.engines.size → s.Fronts state.node) :
    Routed { s with nodes := s.nodes.push state } := by
  intro id node hnode hc
  rw [s.node?_push] at hnode
  split at hnode
  case isTrue =>
      cases hnode
      exact (hfronts hc).of_kinds fun _ _ _ h => h
  case isFalse => exact (hs id node hnode hc).of_kinds fun _ _ _ h => h

theorem routed_enrol {label : String} {duration release : Option Float} {make : NodeInfo → Node}
    (hinfo : ∀ info, (make info).info = info)
    (hfronts : context < s.engines.size → ∀ info, info.context = context → s.Fronts (make info)) :
    Along (Preserves Routed) (Node.enrol context label duration release make) s fun _ _ => True := by
  refine Ends.mono (Node.ends_enrolled s) (fun node t ht => ⟨fun hs => ?_, trivial⟩) fun _ _ h => h.elim
  obtain ⟨⟨info, rfl, rfl, -⟩, state, hstanding, huntouched⟩ := ht
  have hnode : state.node = make info := congrArg Prod.fst hstanding
  have hcontext : (make info).context = info.context := congrArg NodeInfo.context (hinfo info)
  refine (Kept.of_unmoved huntouched.toUnmoved).routed (hs.push ?_)
  rw [hnode, hcontext]
  exact fun hc => hfronts hc info rfl

theorem along_routed {α : Type} {act : Act α} (h : Keeps Kept act) :
    Along (Preserves Routed) act s fun _ t => Kept s t :=
  Ends.mono (h s) (fun _ _ h => ⟨h.1.routed, h.1⟩) fun _ _ h => h.routed

theorem routed_createHost (kind : NodeKind) :
    Along (Preserves Routed) (createHost context kind) s fun host t => Kept s t ∧
      (context < t.engines.size → t.kind? context host = some (some kind)) := by
  refine Ends.mono (Kept.ends_createHost context kind) (fun host t ⟨hkept, _, hkind⟩ => ?_)
    fun _ _ h => h.elim
  exact ⟨hkept.routed, hkept, fun hc => hkind (hkept.contexts ▸ hc)⟩

namespace Node

theorem routed_ofKind (kind : NodeKind) (params : List (Param × Option Drive)) :
    Keeps (Preserves Routed) (ofKind context kind params) := by
  intro s
  refine along_bind (routed_createHost kind) fun host t _ ⟨_, hkind⟩ => ?_
  have hplugs : Keeps Kept (bind context host kind params) := fun u =>
    (along_plugs params u).mono fun _ _ _ _ => trivial
  refine along_bind (along_routed hplugs) fun modulators u _ htu => ?_
  have henrol : Along (Preserves Routed) (enrol context (kind.name ++ hostLabel host)
      kind.naturalLength (longestRelease modulators)
      fun info => .leaf info host kind.isSource kind.params modulators) u fun _ _ => True := by
    refine routed_enrol (fun _ => rfl) fun hc info hinfo param hparam => ?_
    rw [htu.contexts] at hc
    exact ⟨kind, hinfo ▸ htu.kinds _ _ _ (hkind hc), hparam⟩
  refine along_bind henrol fun node v _ _ => ?_
  split
  case isTrue =>
      have hwatched := keeps_bind (Kept.keeps_watched context host (.node node.id))
        fun _ => keeps_pure node
      have hwatched' := hwatched.mono (fun _ _ h => h.routed) v
      simpa only [bind_assoc] using hwatched'
  case isFalse => exact along_pure trivial

theorem routed_shaper (attack : Contour) (release : Option Contour) :
    Keeps (Preserves Routed) (shaper context attack release) := by
  intro s
  refine along_bind (routed_createHost .gain) fun host t _ ⟨_, hkind⟩ => ?_
  refine along_bind (along_routed (Connects.setParam context host .gain 0)) fun _ u _ htu => ?_
  refine routed_enrol (fun _ => rfl) fun hc info hinfo => ?_
  rw [htu.contexts] at hc
  have hgain := htu.kinds _ _ _ (hkind hc)
  rwa [← hinfo] at hgain

theorem routed_destination : Keeps (Preserves Routed) (destination context) :=
  fun _ => routed_enrol (fun _ => rfl) fun _ _ _ param hparam => by cases hparam

theorem routed_inSeries (head : Node) (tail : List Node) :
    Keeps (Preserves Routed) (inSeries head tail) := by
  intro s
  unfold inSeries
  split
  · exact along_pure trivial
  · refine along_bind (along_routed (keeps_chain head tail)) fun _ t _ _ => ?_
    exact routed_enrol (fun _ => rfl) fun _ info hinfo => hinfo.symm

theorem routed_inParallel (first : Node) (rest : List Node) :
    Keeps (Preserves Routed) (inParallel first rest) := by
  intro s
  refine along_bind (routed_createHost .gain) fun input t _ ⟨_, hkind⟩ => ?_
  refine along_bind (along_routed (Kept.keeps_createHost _ .gain)) fun output u _ htu => ?_
  refine along_bind (along_routed (Connects.setParam _ input .gain 1)) fun _ v _ huv => ?_
  refine along_bind (along_routed (Connects.setParam _ output .gain 1)) fun _ w _ hvw => ?_
  have hjoin : Keeps Kept ((first :: rest).forM (joinBranch first.context input output)) :=
    keeps_forM fun branch _ => keeps_joinBranch branch
  refine along_bind (along_routed hjoin) fun _ x _ hwx => ?_
  have htx : Kept t x := trans_of Kept (trans_of Kept htu huv) (trans_of Kept hvw hwx)
  refine routed_enrol (fun _ => rfl) fun hc info hinfo => ?_
  rw [htx.contexts] at hc
  have hgain := htx.kinds _ _ _ (hkind hc)
  rwa [← hinfo] at hgain

theorem routed_wrap (inner : Node) (others : List Node) :
    Keeps (Preserves Routed) (wrap inner others) := by
  intro s
  unfold wrap
  split
  · exact along_pure trivial
  · refine along_bind (routed_enrol (fun _ => rfl) fun _ info hinfo => hinfo.symm) fun node t _ _ => ?_
    exact (keeps_inheritConnected (R := Kept) inner node).mono (fun _ _ h => h.routed) t

end Node

end Making

instance : Crafts (Preserves Routed) where
  ofKind _ := Node.routed_ofKind
  shaper _ := Node.routed_shaper
  destination _ := Node.routed_destination
  inSeries := Node.routed_inSeries
  inParallel := Node.routed_inParallel
  wrap := Node.routed_wrap
  wired node target := (node.keeps_connect target).mono fun _ _ h => Kept.routed h
  warned _ := keeps_aside unmoved_routed (fun _ => rfl) fun _ => rfl

-- No node is there yet in a context that is about to be opened.
theorem Routed.openContext {s : Studio} (hs : Routed s) (hsound : s.ledger.Sound 0) (rate : Float) :
    Routed { s with engines := s.engines.push (.new rate) } := by
  intro id node hnode _
  have hopened : node.context < s.engines.size :=
    (hsound.formed (Studio.offers_of_node hsound hnode).1.known).opened
  refine (hs id node hnode hopened).of_kinds fun c host kind hkind => ?_
  rw [Studio.kind?, (s.engine_opened rate c).1, ← Studio.kind?]
  exact hkind

instance : Performs (Preserves Routed) :=
  .of_kept (fun _ _ => Kept.routed) fun hs => hs.openContext

-- At every point of every run, calls of a host itself among it.
theorem Session.routed_run (rate : Float) (commands : List Command) :
    Routed (run rate commands).studio := by
  have hnew : Routed (.new rate) := fun id node hnode => by simp [Studio.node?, Studio.new] at hnode
  exact invariant_of_kept rate hnew fun _ _ => Kept.routed

namespace Routed

variable {s : Studio} {node : Node}

-- What goes for what is at the front goes for the node.
theorem fronts (h : Routed s) (hsound : s.ledger.Sound 0) (hnode : s.ledger.Knows node) :
    s.Fronts node :=
  h node.id node (Studio.node?_of_knows hnode) (hsound.formed hnode).opened

theorem inputs_eq (h : Routed s) (hsound : s.ledger.Sound 0) (hnode : s.ledger.Knows node) :
    s.inputs node = (s.engine node.context).inputs node.inputHost := by
  induction node using Node.induct with
  | step node ih =>
      have hfronts := h.fronts hsound hnode
      have hparts := (hsound.formed hnode).parts
      cases node with
      | leaf | envelope => rfl
      | series info head tail =>
          have hhead := ih head List.mem_cons_self (hparts head List.mem_cons_self).1
          rw [show head.context = info.context from hfronts] at hhead
          exact hhead
      | wrapped info inner others =>
          have hinner := ih inner List.mem_cons_self (hparts inner List.mem_cons_self).1
          rw [show inner.context = info.context from hfronts] at hinner
          exact hinner
      | parallel info input output branches =>
          obtain ⟨own, hown, hkind⟩ := Option.map_eq_some_iff.1 hfronts
          change 1 = (s.engine info.context).inputs input
          rw [Engine.inputs, hown, Option.elim_some, HostNode.inputs, hkind]
          rfl

theorem admits_param (h : Routed s) (hsound : s.ledger.Sound 0) (hnode : s.ledger.Knows node)
    {param : Param} {host : HostId} (hparam : node.paramHost param = .ok host) :
    (s.engine node.context).admits (.param host param) = true := by
  have hhas {c : ContextId} {host : HostId} {kind : NodeKind} (hkind : s.kind? c host = some (some kind))
      (hhas : kind.params.contains param = true) :
      (s.engine c).admits (.param host param) = true := by
    obtain ⟨own, hown, hkind⟩ := Option.map_eq_some_iff.1 hkind
    rw [Engine.admits, Engine.param?_eq, hown, Option.any_some, HostNode.hasParam, HostNode.params,
      hkind]
    exact hhas
  induction node using Node.induct with
  | step node ih =>
      have hfronts := h.fronts hsound hnode
      have hparts := (hsound.formed hnode).parts
      cases node with
      | leaf info own source params modulators =>
          rw [Node.paramHost] at hparam
          split at hparam
          case isFalse => cases hparam
          case isTrue hcontains =>
              obtain rfl := Except.ok.inj hparam
              obtain ⟨kind, hkind, hcontains⟩ := hfronts param hcontains
              exact hhas hkind hcontains
      | envelope info own attack release =>
          rw [Node.paramHost] at hparam
          split at hparam
          case isFalse => cases hparam
          case isTrue hgain =>
              obtain rfl := Except.ok.inj hparam
              exact hhas hfronts (by rw [hgain]; rfl)
      | series info head tail =>
          have hhead := ih head List.mem_cons_self (hparts head List.mem_cons_self).1 hparam
          rwa [show head.context = info.context from hfronts] at hhead
      | wrapped info inner others =>
          have hinner := ih inner List.mem_cons_self (hparts inner List.mem_cons_self).1 hparam
          rwa [show inner.context = info.context from hfronts] at hinner
      | parallel info input output branches => cases hparam

end Routed

-- The host node that a node is heard by is there, in the context of the outlet.
theorem Studio.outlet_there {s : Studio} {node : Node} (hsound : s.ledger.Sound 0)
    (hnode : s.ledger.Knows node) :
    ((s.engine node.outlet.context).nodes[node.outputHost]?).isSome = true := by
  obtain ⟨hreach, hown⟩ := node.outlet_spec
  have hformed := hsound.formed (hsound.knows_of_reach hnode hreach)
  have hthere := hformed.hosts _ hown
  rw [Ledger.HasHost, s.host_eq hformed.opened, Engine.hosts] at hthere
  simpa using hthere

-- One connection from the output of the node is logged, and the node counts as connected. Nothing else
-- has changed on hosts or nodes.
structure Studio.Linked (s : Studio) (node : Node) (endpoint : Endpoint) (t : Studio) : Prop where
  lays : Lays s [⟨node.context, node.outputHost, endpoint⟩] t
  connected : (node.state t).connected = true
  nodes : t.nodes = s.nodes.modify node.id fun state => { state with connected := true }

namespace Node

variable {s : Studio} {node : Node}

-- Just what the host connects is connected; else nothing changes.
theorem ends_linked (hsound : s.ledger.Sound 0) (hnode : s.ledger.Knows node) (endpoint : Endpoint) :
    Ends (node.connectEndpoint endpoint) s
      (fun _ t => (s.engine node.context).admits endpoint = true ∧ s.Linked node endpoint t)
      fun e t => (∃ fault, e = .host fault) ∧ ((s.engine node.context).admits endpoint = false ∨
        node.outlet.context ≠ node.context) ∧ t = s := by
  have hlays := ends_connectEndpoint (hsound.formed hnode).opened endpoint
  have hmarks : Ends (node.connectEndpoint endpoint) s
      (fun _ t => (s.engine node.context).admits endpoint = true ∧
        t.nodes = s.nodes.modify node.id fun state => { state with connected := true })
      fun _ _ => (s.engine node.context).admits endpoint = false ∨
        node.outlet.context ≠ node.context := by
    unfold connectEndpoint
    rw [ends_bind]
    refine ends_host (fun after hafter => ?_) fun fault hfault => ?_
    · rw [changeNode, ends_modify]
      exact ⟨(Engine.connect_ok_iff.1 ⟨after, hafter⟩).2, rfl⟩
    · by_contra hgranted
      obtain ⟨hadmits, hcontext⟩ := not_or.1 hgranted
      have hthere := s.outlet_there hsound hnode
      rw [not_not.1 hcontext] at hthere
      obtain ⟨after, hafter⟩ := Engine.connect_ok_iff.2 ⟨hthere, Bool.not_eq_false _ ▸ hadmits⟩
      rw [hafter] at hfault
      cases hfault
  refine (hlays.and hmarks).mono ?_ ?_
  · rintro _ t ⟨hlays, hadmits, hnodes⟩
    refine ⟨hadmits, hlays, ?_, hnodes⟩
    obtain ⟨state, hstate, -⟩ := Studio.state_of_knows hnode
    rw [Node.state, hnodes, Array.getElem?_modify, if_pos rfl, hstate]
    rfl
  · rintro e t ⟨⟨rfl, hfault⟩, hrefused⟩
    exact ⟨hfault, hrefused, rfl⟩

-- Within a context it is the host that decides, once a parameter has been found.
theorem connect_within {next : Node} (h : node.context = next.context) :
    node.connect (.node next) = node.connectEndpoint (.node next.inputHost) ∧
      ∀ param, node.connect (.param next param) = match next.paramHost param with
        | .ok host => node.connectEndpoint (.param host param)
        | .error e => throw e := by
  have hcheck : node.checkContext next = pure () := by
    rw [checkContext, if_neg (not_not.2 h)]
  refine ⟨?_, fun param => ?_⟩
  · change (node.checkContext next >>= fun _ => _) = _
    rw [hcheck, pure_bind]
  · change (node.checkContext next >>= fun _ => next.findParam param >>= fun host => _) = _
    rw [hcheck, pure_bind, findParam]
    cases next.paramHost param <;> rfl

end Node

namespace Session

-- Nodes and hosts agree on what can be connected. A node takes as many inputs as the host node that it
-- is fed by, and is connected to just if that takes one; it names a parameter just if the host node
-- that it names has it, and can be connected to there. One connection is logged then, and nothing is
-- changed otherwise. All of that as long as the outlet of the first node is of its own context.
theorem node_and_engine_agree (rate : Float) (commands : List Command) {first second : NodeId}
    {a b : Node} (ha : (run rate commands).studio.node? first = some a)
    (hb : (run rate commands).studio.node? second = some b) (hab : a.context = b.context) :
    let s := (run rate commands).studio
    let engine := s.engine b.context
    s.inputs b = engine.inputs b.inputHost ∧
    Ends (a.connect (.node b)) s
      (fun _ t => 0 < s.inputs b ∧ s.Linked a (.node b.inputHost) t)
      (fun e t => (∃ fault, e = .host fault) ∧
        (s.inputs b = 0 ∨ a.outlet.context ≠ a.context) ∧ t = s) ∧
    ∀ param, match b.paramHost param with
      | .ok host => (engine.param? host param).isSome = true ∧
        Ends (a.connect (.param b param)) s
          (fun _ t => s.Linked a (.param host param) t)
          fun e t => (∃ fault, e = .host fault) ∧ a.outlet.context ≠ a.context ∧ t = s
      | .error e => (∃ label, e = .unknownParam label param) ∧
        a.connect (.param b param) s = .error e s := by
  intro s engine
  have hsound : s.ledger.Sound 0 := (lawful_run rate commands).sound
  have hrouted : Routed s := routed_run rate commands
  have hknown := (Studio.offers_of_node hsound ha).1.known
  have hknown' := (Studio.offers_of_node hsound hb).1.known
  have hinputs : s.inputs b = engine.inputs b.inputHost := hrouted.inputs_eq hsound hknown'
  obtain ⟨hnode, hparam⟩ := Node.connect_within hab
  refine ⟨hinputs, ?_, fun param => ?_⟩
  · rw [hnode, hinputs]
    refine (Node.ends_linked hsound hknown _).mono (fun _ t ht => ?_) fun e t ht => ?_
    · rw [hab] at ht
      exact ⟨Nat.pos_of_ne_zero (by simpa [Engine.admits] using ht.1), ht.2⟩
    · rw [hab] at ht ⊢
      exact ⟨ht.1, ht.2.1.imp_left fun hnone => by simpa [Engine.admits] using hnone, ht.2.2⟩
  · rw [hparam]
    split
    case h_1 host hhost =>
        have hadmits := hrouted.admits_param hsound hknown' hhost
        refine ⟨hadmits, ?_⟩
        refine (Node.ends_linked hsound hknown _).mono (fun _ t ht => ht.2) fun e t ht => ?_
        rw [hab, hadmits] at ht
        rw [hab]
        exact ⟨ht.1, ht.2.1.resolve_left Bool.noConfusion, ht.2.2⟩
    case h_2 e he => exact ⟨Node.paramHost_error he, rfl⟩

-- A gain of the first context and a tone of another in a series, which connects neither to the other;
-- and another gain of the first.
def stray : List Command := [
  .openContext 44100,
  .make 0 (.gain (.fixed 1)),
  .make 0 (.gain (.fixed 1)),
  .make 1 (.gain (.fixed 1)),
  .make 1 (.gain (.fixed 1)),
  .make 1 (.oscillator .sine (.fixed 5) none),
  .make 0 (.series 0 [4])]

-- The one gain is connected to the other.
theorem gain_connected : ∃ gain other t, (run 44100 stray).studio.node? 0 = some gain ∧
    (run 44100 stray).studio.node? 1 = some other ∧ gain.context = other.context ∧
    gain.connect (.node other) (run 44100 stray).studio = .ok () t ∧
    (run 44100 stray).studio.Linked gain (.node other.inputHost) t := by
  have hsome : ∀ id ∈ [0, 1], ((run 44100 stray).studio.node? id).isSome = true := by
    decide +kernel
  obtain ⟨gain, hgain⟩ := Option.isSome_iff_exists.1 (hsome 0 (by simp))
  obtain ⟨other, hother⟩ := Option.isSome_iff_exists.1 (hsome 1 (by simp))
  have hfacts : ∀ gain ∈ (run 44100 stray).studio.node? 0,
      ∀ other ∈ (run 44100 stray).studio.node? 1, gain.context = other.context ∧
        gain.outlet.context = gain.context ∧ (run 44100 stray).studio.inputs other ≠ 0 := by
    decide +kernel
  obtain ⟨hcontext, houtlet, hinputs⟩ := hfacts gain hgain other hother
  obtain ⟨-, hconnect, -⟩ := node_and_engine_agree 44100 stray hgain hother hcontext
  cases hact : gain.connect (.node other) (run 44100 stray).studio with
  | ok _ t => exact ⟨gain, other, t, hgain, hother, hcontext, hact, (ends_of_ok hact hconnect).2⟩
  | error e t =>
      obtain ⟨-, hnone | houtside, -⟩ := ends_of_error hact hconnect
      · exact absurd hnone hinputs
      · exact absurd houtlet houtside

-- The series is of the same context as the gain, which takes an input, and is refused: it is heard by a
-- host node of the other context, of which the host of its own knows nothing.
theorem stray_refused : ∃ chain ∈ (run 44100 stray).studio.node? 5,
    ∃ gain ∈ (run 44100 stray).studio.node? 1, chain.context = gain.context ∧
      0 < (run 44100 stray).studio.inputs gain ∧ chain.outlet.context ≠ chain.context ∧
      (chain.connect (.node gain)).succeeds (run 44100 stray).studio = false := by
  decide +kernel

end Session

end Patchbay
