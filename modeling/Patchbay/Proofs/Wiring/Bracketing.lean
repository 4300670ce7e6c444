import Patchbay.Proofs.Wiring.NestedSeries
import Patchbay.Proofs.Wiring.Endpoints

namespace Patchbay

open Act

-- The host of its context connects it.
def Wire.Fits (s : Studio) (wire : Wire) : Prop :=
  ((s.engine wire.context).nodes[wire.source]?).isSome = true ∧
    (s.engine wire.context).admits wire.target = true

namespace Lays

variable {s t : Studio} {wires : List Wire}

theorem inputs_eq (h : Lays s wires t) : t.inputs = s.inputs := funext h.inputs

theorem fits_iff (h : Lays s wires t) (wire : Wire) : wire.Fits t ↔ wire.Fits s := by
  have hadmits : (t.engine wire.context).admits wire.target =
      (s.engine wire.context).admits wire.target := by
    cases wire.target with
    | node host => rw [Engine.admits, Engine.inputs, h.hosts, ← Engine.inputs, ← Engine.admits]
    | param host param =>
        rw [Engine.admits, Engine.param?_eq, h.hosts, ← Engine.param?_eq, ← Engine.admits]
  rw [Wire.Fits, Wire.Fits, h.hosts, hadmits]

theorem of_engines (h : t.engines = s.engines) : Lays s [] t where
  contexts := by rw [h]
  hosts c := by rw [Studio.engine, h, ← Studio.engine]
  calls c := by simp [Studio.engine, h]

end Lays

-- The host of a context connects what fits, and nothing else.
theorem ends_wire {s : Studio} (wire : Wire) (hc : wire.context < s.engines.size) :
    Ends (Act.host wire.context (·.connect wire.source wire.target)) s
      (fun _ t => wire.Fits s ∧ Lays s [wire] t ∧ t.nodes = s.nodes)
      fun e t => ¬wire.Fits s ∧ t = s ∧ ∃ fault, e = .host fault := by
  have hfits : Ends (Act.host wire.context (·.connect wire.source wire.target)) s
      (fun _ _ => wire.Fits s) fun _ _ => ¬wire.Fits s := by
    refine ends_host (fun after hafter => Engine.connect_ok_iff.1 ⟨after, hafter⟩) ?_
    intro fault hfault hfit
    obtain ⟨after, hafter⟩ := Engine.connect_ok_iff.2 hfit
    rw [hafter] at hfault
    cases hfault
  exact hfits.and (ends_connectHost hc wire.source wire.target)

namespace Node

variable {s : Studio}

theorem ends_wired {node : Node} (hc : node.context < s.engines.size) (endpoint : Endpoint) :
    Ends (node.connectEndpoint endpoint) s
      (fun _ t => Wire.Fits s ⟨node.context, node.outputHost, endpoint⟩ ∧
        Lays s [⟨node.context, node.outputHost, endpoint⟩] t ∧
        t.nodes = s.nodes.modify node.id fun state => { state with connected := true })
      fun e t => ¬Wire.Fits s ⟨node.context, node.outputHost, endpoint⟩ ∧ t = s ∧
        ∃ fault, e = .host fault := by
  unfold connectEndpoint
  rw [ends_bind]
  refine (ends_wire ⟨node.context, node.outputHost, endpoint⟩ hc).mono ?_ fun _ _ h => h
  rintro _ t ⟨hfit, hlays, hnodes⟩
  rw [changeNode, ends_modify]
  exact ⟨hfit, ⟨hlays.contexts, hlays.hosts, hlays.calls⟩, by rw [hnodes]⟩

-- A new node takes the next number. No host is touched, nothing has been started, and no other node is
-- connected or not by it.
theorem ends_numbered {context : ContextId} {label : String} {duration release : Option Float}
    {make : NodeInfo → Node} (s : Studio) :
    Ends (enrol context label duration release make) s
      (fun node t => node = make ⟨s.nodes.size, context, label, length duration, length release⟩ ∧
        t.engines = s.engines ∧ t.nodes.size = s.nodes.size + 1 ∧
        (∀ id < s.nodes.size, t.connected id = s.connected id) ∧
        ∀ id, t.started id = s.started id)
      fun _ _ => False := by
  have hlisten (listener : Listener) (ids : List NodeId) (s : Studio) :
      Ends (ids.forM fun id => changeNode id fun state =>
        { state with listeners := state.listeners ++ [listener] }) s
        (fun _ t => t.engines = s.engines ∧ t.nodes.size = s.nodes.size ∧
          (∀ id, t.connected id = s.connected id) ∧ ∀ id, t.started id = s.started id)
        fun _ _ => False := by
    induction ids generalizing s with
    | nil => exact ends_forM_nil.2 ⟨rfl, rfl, fun _ => rfl, fun _ => rfl⟩
    | cons id rest ih =>
        rw [ends_forM_cons, changeNode, ends_modify]
        refine (ih _).mono (fun _ t ht => ?_) fun _ _ h => h
        refine ⟨ht.1, ht.2.1.trans Array.size_modify, fun other => (ht.2.2.1 other).trans ?_,
          fun other => (ht.2.2.2 other).trans ?_⟩
        all_goals
          simp only [Studio.connected, Studio.started, Array.getElem?_modify]
          split
          case isTrue => cases s.nodes[other]? <;> rfl
          case isFalse => rfl
  unfold enrol
  simp only [ends_bind, ends_get, ends_set]
  refine (hlisten _ _ _).mono (fun _ t ht => ?_) fun _ _ h => h
  obtain ⟨hengines, hsize, hconnected, hstarted⟩ := ht
  rw [ends_pure]
  refine ⟨rfl, hengines, hsize.trans (Array.size_push _), fun id hid => ?_, fun id => ?_⟩
  · rw [hconnected]
    simp [Studio.connected, Array.getElem?_push, Nat.ne_of_lt hid]
  · rw [hstarted, Studio.started, Array.getElem?_push]
    split
    case isTrue hnew => simp [Studio.started, hnew]
    case isFalse => rfl

end Node

-- If the hosts take all the wires, the act lays them, in some order, and gives what it should. If they
-- do not, it fails, and has laid some wires or other.
def Act.Draws {α : Type} (act : Act α) (s : Studio) (wires : List Wire) (ok : α → Prop) : Prop :=
  Ends act s
    (fun a t => (∀ wire ∈ wires, wire.Fits s) ∧ ok a ∧ ∃ laid, laid.Perm wires ∧ Lays s laid t)
    fun _ t => (∃ wire ∈ wires, ¬wire.Fits s) ∧ ∃ laid, Lays s laid t

section Draws

variable {α β : Type} {s : Studio} {act : Act α} {wires more : List Wire} {ok : α → Prop}

theorem draws_pure {a : α} (h : ok a) : Draws (pure a) s [] ok := by
  unfold Draws
  rw [ends_pure]
  exact ⟨by simp, h, [], .refl _, .nil s⟩

theorem Act.Draws.perm (h : Draws act s wires ok) (hperm : wires.Perm more) :
    Draws act s more ok := by
  refine Ends.mono h ?_ ?_
  · rintro a t ⟨hfits, ha, laid, hlaid, hlays⟩
    exact ⟨fun wire hwire => hfits wire (hperm.mem_iff.2 hwire), ha, laid, hlaid.trans hperm, hlays⟩
  · rintro e t ⟨⟨wire, hwire, hunfit⟩, hlays⟩
    exact ⟨⟨wire, hperm.mem_iff.1 hwire, hunfit⟩, hlays⟩

theorem Act.Draws.mono {ok' : α → Prop} (h : Draws act s wires ok) (hok : ∀ a, ok a → ok' a) :
    Draws act s wires ok' :=
  Ends.mono h (fun a _ ht => ⟨ht.1, hok a ht.2.1, ht.2.2⟩) fun _ _ ht => ht

theorem Act.Draws.succeeds_iff (h : Draws act s wires ok) :
    act.succeeds s = true ↔ ∀ wire ∈ wires, wire.Fits s := by
  unfold succeeds
  cases hact : act s with
  | ok a t => simpa using (ends_of_ok hact h).1
  | error e t => simpa using (ends_of_error hact h).1

-- Whether it succeeds or not, no host node is made or changed.
theorem Act.Draws.hosts (h : Draws act s wires ok) (c : ContextId) :
    ((act.after s).engine c).nodes = (s.engine c).nodes := by
  refine after_of_ends (P := fun t => (t.engine c).nodes = (s.engine c).nodes) (Ends.mono h ?_ ?_)
  · rintro a t ⟨-, -, laid, -, hlays⟩
    exact hlays.hosts c
  · rintro e t ⟨-, laid, hlays⟩
    exact hlays.hosts c

theorem draws_bind {next : α → Act β} {ok' : β → Prop} (h : Draws act s wires ok)
    (hnext : ∀ a t laid, ok a → Lays s laid t → Draws (next a) t more ok') :
    Draws (act >>= next) s (wires ++ more) ok' := by
  unfold Draws
  rw [ends_bind]
  refine Ends.mono h ?_ ?_
  · rintro a t ⟨hfits, ha, laid, hlaid, hlays⟩
    refine Ends.mono (hnext a t laid ha hlays) ?_ ?_
    · rintro b u ⟨hfits', hb, laid', hlaid', hlays'⟩
      refine ⟨List.forall_mem_append.2 ⟨hfits, fun wire hwire => ?_⟩, hb, laid ++ laid',
        hlaid.append hlaid', hlays.append hlays'⟩
      exact (hlays.fits_iff wire).1 (hfits' wire hwire)
    · rintro e u ⟨⟨wire, hwire, hunfit⟩, laid', hlays'⟩
      refine ⟨⟨wire, List.mem_append_right _ hwire, fun hfit => ?_⟩, laid ++ laid',
        hlays.append hlays'⟩
      exact hunfit ((hlays.fits_iff wire).2 hfit)
  · rintro e t ⟨⟨wire, hwire, hunfit⟩, hlays⟩
    exact ⟨⟨wire, List.mem_append_left _ hwire, hunfit⟩, hlays⟩

theorem draws_connectEndpoint {node : Node} (hc : node.context < s.engines.size)
    (endpoint : Endpoint) : Draws (node.connectEndpoint endpoint) s
      [⟨node.context, node.outputHost, endpoint⟩] fun _ => True := by
  refine (node.ends_wired hc endpoint).mono ?_ ?_
  · rintro _ t ⟨hfit, hlays, -⟩
    exact ⟨by simpa using hfit, trivial, _, .refl _, hlays⟩
  · rintro e t ⟨hunfit, rfl, -⟩
    exact ⟨⟨_, List.mem_singleton_self _, hunfit⟩, [], .nil t⟩

-- A new node is no matter of the hosts.
theorem draws_enrol {context : ContextId} {label : String} {duration release : Option Float}
    {make : NodeInfo → Node} : Draws (Node.enrol context label duration release make) s []
      fun node => ∃ info, node = make info ∧ info.context = context := by
  refine (Node.ends_numbered s).mono ?_ fun _ _ h => h.elim
  rintro node t ⟨hnode, hengines, -⟩
  exact ⟨by simp, ⟨_, hnode, rfl⟩, [], .refl _, .of_engines hengines⟩

end Draws

namespace Node

-- The wire from a host node into a node that takes an input.
def joint (context : ContextId) (inputs : Node → Nat) (source : HostId) (node : Node) : List Wire :=
  if inputs node ≠ 0 then [⟨context, source, .node node.inputHost⟩] else []

-- The wires along a row of nodes of one context, from a host node on.
def cord (context : ContextId) (inputs : Node → Nat) : HostId → List Node → List Wire
  | _, [] => []
  | source, node :: rest =>
    joint context inputs source node ++ cord context inputs node.outputHost rest

-- From the outside it looks like the nodes in series.
structure StandsFor (node head : Node) (tail : List Node) : Prop where
  context : node.context = head.context
  inputHost : node.inputHost = head.inputHost
  inputs : ∀ find, node.findInputs find = head.findInputs find
  paramHost : ∀ param, node.paramHost param = head.paramHost param
  outputHost : node.outputHost = lastHost head.outputHost tail
  startable : node.isStartable = anyStartable (head :: tail)
  emits : node.emitsEnded = anyEmits (head :: tail)

theorem standsFor_self (node : Node) : node.StandsFor node [] :=
  ⟨rfl, rfl, fun _ => rfl, fun _ => rfl, rfl, by simp [anyStartable], by simp [anyEmits]⟩

theorem standsFor_series {info : NodeInfo} {head : Node} (h : info.context = head.context)
    (tail : List Node) : (series info head tail).StandsFor head tail :=
  ⟨h, rfl, fun _ => rfl, fun _ => rfl, rfl, by rw [isStartable, anyStartable],
    by rw [emitsEnded, anyEmits]⟩

section Series

variable {s : Studio} {c : ContextId} {head : Node} {tail : List Node}

theorem draws_connect {node next : Node} (hsame : node.context = next.context)
    (hc : node.context < s.engines.size) :
    Draws (node.connect (.node next)) s [⟨node.context, node.outputHost, .node next.inputHost⟩]
      fun _ => True := by
  rw [(connect_within hsame).1]
  exact draws_connectEndpoint hc _

theorem draws_chain (hone : ∀ node ∈ head :: tail, node.context = c) (hc : c < s.engines.size) :
    Draws (head.chain tail) s (cord c s.inputs head.outputHost tail) fun _ => True := by
  induction tail generalizing head s with
  | nil => exact draws_pure trivial
  | cons next rest ih =>
      obtain ⟨hhead, hrest⟩ := List.forall_mem_cons.1 hone
      have hnext := hrest next List.mem_cons_self
      unfold Draws
      rw [chain, ends_bind, ends_get, cord, joint]
      split
      case isFalse => exact ih hrest hc
      case isTrue =>
          have hconnect := draws_connect (s := s) (hhead.trans hnext.symm) (hhead ▸ hc)
          rw [hhead] at hconnect
          refine draws_bind hconnect fun _ t _ _ hlays => ?_
          rw [← hlays.inputs_eq]
          exact ih hrest (hlays.contexts ▸ hc)

theorem draws_inSeries (hone : ∀ node ∈ head :: tail, node.context = c) (hc : c < s.engines.size) :
    Draws (inSeries head tail) s (cord c s.inputs head.outputHost tail)
      fun node => node.StandsFor head tail := by
  by_cases hnil : tail = []
  · subst hnil
    exact draws_pure (standsFor_self head)
  · obtain ⟨label, duration, release, heq⟩ := inSeries_eq head hnil
    rw [heq, ← List.append_nil (cord c s.inputs head.outputHost tail)]
    refine draws_bind (draws_chain hone hc) fun _ t _ _ _ => draws_enrol.mono ?_
    rintro node ⟨info, rfl, hcontext⟩
    exact standsFor_series hcontext tail

end Series

variable {c : ContextId} {inputs : Node → Nat}

theorem lastHost_append (source : HostId) (nodes more : List Node) :
    lastHost source (nodes ++ more) = lastHost (lastHost source nodes) more := by
  induction nodes generalizing source with
  | nil => rfl
  | cons node rest ih => exact ih node.outputHost

theorem cord_append (source : HostId) (nodes more : List Node) :
    cord c inputs source (nodes ++ more) =
      cord c inputs source nodes ++ cord c inputs (lastHost source nodes) more := by
  induction nodes generalizing source with
  | nil => rfl
  | cons node rest ih =>
      rw [List.cons_append, cord, cord, ih, lastHost, List.append_assoc]

theorem anyStartable_append (nodes more : List Node) :
    anyStartable (nodes ++ more) = (anyStartable nodes || anyStartable more) := by
  induction nodes with
  | nil => rfl
  | cons node rest ih => rw [List.cons_append, anyStartable, anyStartable, ih, Bool.or_assoc]

theorem anyEmits_append (nodes more : List Node) :
    anyEmits (nodes ++ more) = (anyEmits nodes || anyEmits more) := by
  induction nodes with
  | nil => rfl
  | cons node rest ih => rw [List.cons_append, anyEmits, anyEmits, ih, Bool.or_assoc]

-- Each wire leads into a node of the row that takes an input, from the start or from a node of the row.
theorem mem_cord {source : HostId} {nodes : List Node} {wire : Wire}
    (h : wire ∈ cord c inputs source nodes) : wire.context = c ∧
      (wire.source = source ∨ ∃ node ∈ nodes, wire.source = node.outputHost) ∧
      ∃ node ∈ nodes, inputs node ≠ 0 ∧ wire.target = .node node.inputHost := by
  induction nodes generalizing source with
  | nil => cases h
  | cons node rest ih =>
      have hlater (h : wire ∈ cord c inputs node.outputHost rest) : wire.context = c ∧
          (wire.source = source ∨ ∃ other ∈ node :: rest, wire.source = other.outputHost) ∧
          ∃ other ∈ node :: rest, inputs other ≠ 0 ∧ wire.target = .node other.inputHost := by
        obtain ⟨hcontext, hsource, other, hother, htarget⟩ := ih h
        refine ⟨hcontext, .inr ?_, other, List.mem_cons_of_mem node hother, htarget⟩
        obtain hfirst | ⟨before, hbefore, hfrom⟩ := hsource
        · exact ⟨node, List.mem_cons_self, hfirst⟩
        · exact ⟨before, List.mem_cons_of_mem node hbefore, hfrom⟩
      rcases List.mem_append.1 h with h | h
      · rw [joint] at h
        split at h
        case isFalse => cases h
        case isTrue htakes =>
            rw [List.mem_singleton.1 h]
            exact ⟨rfl, .inl rfl, node, List.mem_cons_self, htakes, rfl⟩
      · exact hlater h

-- Nodes that are heard from their own context are connected.
theorem fits_cord {s : Studio} (hsound : s.ledger.Sound 0) (hrouted : Routed s) {nodes : List Node}
    {head : Node} (hknown : ∀ node ∈ head :: nodes, s.ledger.Knows node)
    (hone : ∀ node ∈ head :: nodes, node.context = c)
    (houtlets : ∀ node ∈ head :: nodes, node.outlet.context = c) :
    ∀ wire ∈ cord c s.inputs head.outputHost nodes, wire.Fits s := by
  intro wire hwire
  obtain ⟨hcontext, hsource, node, hnode, htakes, htarget⟩ := mem_cord hwire
  have hfrom : ∃ before ∈ head :: nodes, wire.source = before.outputHost := by
    obtain hfirst | ⟨before, hbefore, hfrom⟩ := hsource
    · exact ⟨head, List.mem_cons_self, hfirst⟩
    · exact ⟨before, List.mem_cons_of_mem head hbefore, hfrom⟩
  obtain ⟨before, hbefore, hfrom⟩ := hfrom
  constructor
  · have hthere := Studio.outlet_there hsound (hknown before hbefore)
    rwa [houtlets before hbefore, ← hcontext, ← hfrom] at hthere
  · have hnode' := List.mem_cons_of_mem head hnode
    have hinputs := hrouted.inputs_eq hsound (hknown node hnode')
    rw [hone node hnode'] at hinputs
    rw [htarget, hcontext, Engine.admits, ← hinputs]
    exact decide_eq_true htakes

end Node

-- Nodes in a row, some of them put together, and some of these put together again. No brackets are
-- empty.
inductive Bracketing where
  | single (node : Node)
  | several (first : Bracketing) (rest : List Bracketing)

namespace Bracketing

def front : Bracketing → Node
  | .single node => node
  | .several first _ => first.front

mutual
-- All but the first of the row.
def others : Bracketing → List Node
  | .single _ => []
  | .several first rest => first.others ++ row rest

def row : List Bracketing → List Node
  | [] => []
  | group :: rest => group.front :: (group.others ++ row rest)
end

def nodes (group : Bracketing) : List Node := group.front :: group.others

mutual
-- Puts each group in series, from the inside out.
def compose : Bracketing → Act Node
  | .single node => pure node
  | .several first rest => do
    let head ← first.compose
    let tail ← composeAll rest
    Node.inSeries head tail

def composeAll : List Bracketing → Act (List Node)
  | [] => pure []
  | group :: rest => do
    let node ← group.compose
    let nodes ← composeAll rest
    return node :: nodes
end

variable {c : ContextId} {inputs : Node → Nat}

-- A node for each group of a row.
def StandFor : List Node → List Bracketing → Prop :=
  List.Forall₂ fun node group => node.StandsFor group.front group.others

-- The wires within the groups of a row, and those from one to the next.
def within (c : ContextId) (inputs : Node → Nat) (groups : List Bracketing) : List Wire :=
  groups.flatMap fun group => Node.cord c inputs group.front.outputHost group.others

def between (c : ContextId) (inputs : Node → Nat) : HostId → List Bracketing → List Wire
  | _, [] => []
  | source, group :: rest => Node.joint c inputs source group.front ++
    between c inputs (Node.lastHost group.front.outputHost group.others) rest

-- Together they are the wires along the row.
theorem perm_cord (source : HostId) (groups : List Bracketing) :
    (within c inputs groups ++ between c inputs source groups).Perm
      (Node.cord c inputs source (row groups)) := by
  induction groups generalizing source with
  | nil => exact .refl _
  | cons group rest ih =>
      let own := Node.cord c inputs group.front.outputHost group.others
      let entry := Node.joint c inputs source group.front
      let last := Node.lastHost group.front.outputHost group.others
      have hrow : Node.cord c inputs source (row (group :: rest)) =
          entry ++ (own ++ Node.cord c inputs last (row rest)) := by
        rw [row, Node.cord, Node.cord_append]
      have hleft : within c inputs (group :: rest) ++ between c inputs source (group :: rest) =
          own ++ (within c inputs rest ++ (entry ++ between c inputs last rest)) := by
        rw [within, List.flatMap_cons, between, List.append_assoc, ← within]
      rw [hrow, hleft]
      calc own ++ (within c inputs rest ++ (entry ++ between c inputs last rest))
          |>.Perm (own ++ (entry ++ (within c inputs rest ++ between c inputs last rest))) :=
            (List.perm_append_comm_assoc _ _ _).append_left own
        _ |>.Perm (entry ++ (own ++ (within c inputs rest ++ between c inputs last rest))) :=
            List.perm_append_comm_assoc _ _ _
        _ |>.Perm (entry ++ (own ++ Node.cord c inputs last (row rest))) :=
            ((ih last).append_left own).append_left entry

namespace StandFor

variable {nodes : List Node} {groups : List Bracketing}

theorem cord_eq (h : StandFor nodes groups) (s : Studio) (source : HostId) :
    Node.cord c s.inputs source nodes = between c s.inputs source groups := by
  induction h generalizing source with
  | nil => rfl
  | cons hfirst hrest ih =>
      have hinputs : s.inputs _ = s.inputs _ := hfirst.inputs _
      rw [Node.cord, between, ih, hfirst.outputHost, Node.joint, Node.joint, hinputs,
        hfirst.inputHost]

theorem context (h : StandFor nodes groups) (hone : ∀ node ∈ row groups, node.context = c) :
    ∀ node ∈ nodes, node.context = c := by
  induction h with
  | nil => simp
  | cons hfirst _ ih =>
      obtain ⟨hfront, hlater⟩ := List.forall_mem_cons.1 hone
      refine List.forall_mem_cons.2 ⟨hfirst.context.trans hfront, ih fun node hnode => ?_⟩
      exact hlater node (List.mem_append_right _ hnode)

theorem outputHost (h : StandFor nodes groups) (source : HostId) :
    Node.lastHost source nodes = Node.lastHost source (row groups) := by
  induction h generalizing source with
  | nil => rfl
  | cons hfirst _ ih =>
      rw [Node.lastHost, row, Node.lastHost, Node.lastHost_append, ih, hfirst.outputHost]

theorem startable (h : StandFor nodes groups) :
    Node.anyStartable nodes = Node.anyStartable (row groups) := by
  induction h with
  | nil => rfl
  | cons hfirst _ ih =>
      rw [Node.anyStartable, ih, hfirst.startable, ← Node.anyStartable_append, List.cons_append, row]

theorem emits (h : StandFor nodes groups) : Node.anyEmits nodes = Node.anyEmits (row groups) := by
  induction h with
  | nil => rfl
  | cons hfirst _ ih =>
      rw [Node.anyEmits, ih, hfirst.emits, ← Node.anyEmits_append, List.cons_append, row]

-- A series of nodes that stand for the groups stands for all that is in these.
theorem series {node head : Node} {first : Bracketing} (h : StandFor nodes groups)
    (hhead : head.StandsFor first.front first.others) (hnode : node.StandsFor head nodes) :
    node.StandsFor first.front (first.others ++ row groups) where
  context := hnode.context.trans hhead.context
  inputHost := hnode.inputHost.trans hhead.inputHost
  inputs find := (hnode.inputs find).trans (hhead.inputs find)
  paramHost param := (hnode.paramHost param).trans (hhead.paramHost param)
  outputHost := by rw [hnode.outputHost, hhead.outputHost, h.outputHost, Node.lastHost_append]
  startable := by
    rw [hnode.startable, Node.anyStartable, hhead.startable, h.startable, ← Node.anyStartable_append,
      List.cons_append]
  emits := by
    rw [hnode.emits, Node.anyEmits, hhead.emits, h.emits, ← Node.anyEmits_append, List.cons_append]

end StandFor

mutual
-- The wires drawn are those of the row, whatever the brackets.
theorem draws_compose : ∀ (group : Bracketing) (s : Studio), c < s.engines.size →
    (∀ node ∈ group.nodes, node.context = c) →
    Draws group.compose s (Node.cord c s.inputs group.front.outputHost group.others)
      fun node => node.StandsFor group.front group.others
  | .single node, s, _, _ => by
    rw [compose]
    exact draws_pure node.standsFor_self
  | .several first rest, s, hopened, hone => by
    obtain ⟨hfront, hlater⟩ := List.forall_mem_cons.1 hone
    rw [others, List.forall_mem_append] at hlater
    rw [compose, others, Node.cord_append]
    have hall : (Node.cord c s.inputs first.front.outputHost first.others ++
        (within c s.inputs rest ++ between c s.inputs
          (Node.lastHost first.front.outputHost first.others) rest)).Perm
        (Node.cord c s.inputs first.front.outputHost first.others ++
          Node.cord c s.inputs (Node.lastHost first.front.outputHost first.others) (row rest)) :=
      (perm_cord _ rest).append_left _
    refine Draws.perm ?_ hall
    refine draws_bind (draws_compose first s hopened
      (List.forall_mem_cons.2 ⟨hfront, hlater.1⟩)) fun head t _ hhead hst => ?_
    rw [← hst.inputs_eq]
    have hopened' := hst.contexts ▸ hopened
    refine draws_bind (draws_composeAll rest t hopened' hlater.2) fun tail u _ htail htu => ?_
    have hparts : ∀ node ∈ head :: tail, node.context = c :=
      List.forall_mem_cons.2 ⟨hhead.context.trans hfront, htail.context hlater.2⟩
    rw [← htu.inputs_eq, ← htail.cord_eq, ← hhead.outputHost]
    refine (Node.draws_inSeries hparts (htu.contexts ▸ hopened')).mono fun node hnode => ?_
    exact htail.series hhead hnode

theorem draws_composeAll : ∀ (groups : List Bracketing) (s : Studio),
    c < s.engines.size → (∀ node ∈ row groups, node.context = c) →
    Draws (composeAll groups) s (within c s.inputs groups) fun nodes => StandFor nodes groups
  | [], s, _, _ => by
    rw [composeAll]
    exact draws_pure .nil
  | group :: rest, s, hopened, hone => by
    obtain ⟨hfront, hlater⟩ := List.forall_mem_cons.1 hone
    rw [List.forall_mem_append] at hlater
    rw [composeAll, within, List.flatMap_cons]
    refine draws_bind (draws_compose group s hopened
      (List.forall_mem_cons.2 ⟨hfront, hlater.1⟩)) fun node t _ hnode hst => ?_
    rw [← List.append_nil (List.flatMap _ rest), ← hst.inputs_eq]
    refine draws_bind (draws_composeAll rest t (hst.contexts ▸ hopened) hlater.2) ?_
    exact fun nodes u _ hnodes _ => draws_pure (.cons hnode hnodes)
end

end Bracketing

namespace Session

-- The outcomes of two acts that put nodes together: the same wires have been drawn, in whatever order
-- and no host node has been made, and the nodes look alike from the outside.
structure WiredAlike (s : Studio) (node : Node) (t : Studio) (other : Node) (u : Studio) : Prop where
  wires : ∃ laid laid', laid.Perm laid' ∧ Lays s laid t ∧ Lays s laid' u
  inputHost : node.inputHost = other.inputHost
  outputHost : node.outputHost = other.outputHost
  inputs : t.inputs node = u.inputs other
  paramHost : ∀ param, node.paramHost param = other.paramHost param
  startable : node.isStartable = other.isStartable
  emits : node.emitsEnded = other.emitsEnded

-- Known nodes of one context in a row are put in series, once in groups and once all together. The one
-- succeeds if the other does, and then they come to the same: the same connections, the same input and
-- output, as many inputs, the same parameters, and both or neither can be started and will end. No host
-- node is made in any case. That a host refuses one of the connections comes only of nodes that are
-- heard by a host node of another context.
theorem bracketed_alike (rate : Float) (commands : List Command) (group : Bracketing)
    (context : ContextId) (hknown : ∀ node ∈ group.nodes,
      (run rate commands).studio.node? node.id = some node ∧ node.context = context) :
    let s := (run rate commands).studio
    let flat := Node.inSeries group.front group.others
    group.compose.succeeds s = flat.succeeds s ∧
    ((∀ node ∈ group.nodes, node.outlet.context = context) → flat.succeeds s = true) ∧
    (∀ c, ((group.compose.after s).engine c).nodes = (s.engine c).nodes ∧
      ((flat.after s).engine c).nodes = (s.engine c).nodes) ∧
    ∀ node t other u, group.compose s = .ok node t → flat s = .ok other u →
      WiredAlike s node t other u := by
  intro s flat
  have hsound : s.ledger.Sound 0 := (lawful_run rate commands).sound
  have hthere (node : Node) (hnode : node ∈ group.nodes) : s.ledger.Knows node :=
    (Studio.offers_of_node hsound (hknown node hnode).1).1.known
  have hone : ∀ node ∈ group.nodes, node.context = context := fun node hnode => (hknown node hnode).2
  have hopened : context < s.engines.size := by
    have hfront : group.front ∈ group.nodes := List.mem_cons_self
    exact hone group.front hfront ▸ (hsound.formed (hthere group.front hfront)).opened
  have hgroup := group.draws_compose s hopened hone
  have hflat := Node.draws_inSeries (s := s) hone hopened
  refine ⟨?_, fun houtlets => ?_, fun c => ⟨hgroup.hosts c, hflat.hosts c⟩, ?_⟩
  · exact Bool.eq_iff_iff.2 (hgroup.succeeds_iff.trans hflat.succeeds_iff.symm)
  · exact hflat.succeeds_iff.2 (Node.fits_cord hsound (routed_run rate commands) hthere hone houtlets)
  · intro node t other u hnode hother
    obtain ⟨-, hstands, laid, hperm, hlays⟩ := ends_of_ok hnode hgroup
    obtain ⟨-, hstands', laid', hperm', hlays'⟩ := ends_of_ok hother hflat
    have hinputs : t.inputs node = u.inputs other := by
      rw [hlays.inputs, hlays'.inputs]
      exact (hstands.inputs _).trans (hstands'.inputs _).symm
    exact {
      wires := ⟨laid, laid', hperm.trans hperm'.symm, hlays, hlays'⟩
      inputHost := hstands.inputHost.trans hstands'.inputHost.symm
      outputHost := hstands.outputHost.trans hstands'.outputHost.symm
      inputs := hinputs
      paramHost := fun param => (hstands.paramHost param).trans (hstands'.paramHost param).symm
      startable := hstands.startable.trans hstands'.startable.symm
      emits := hstands.emits.trans hstands'.emits.symm }

-- A tone and three gains.
def inARow : List Command := [
  .make 0 (.oscillator .sine (.fixed 440) none),
  .make 0 (.gain (.fixed 1)),
  .make 0 (.gain (.fixed 1)),
  .make 0 (.gain (.fixed 1))]

theorem inARow_bracketed : ∃ group : Bracketing, group.nodes.length = 4 ∧
    (∀ node ∈ group.nodes,
      (run 44100 inARow).studio.node? node.id = some node ∧ node.context = 0) ∧
    ∃ node t other u, group.compose (run 44100 inARow).studio = .ok node t ∧
      Node.inSeries group.front group.others (run 44100 inARow).studio = .ok other u ∧
      WiredAlike (run 44100 inARow).studio node t other u := by
  have hsome : ∀ id < 4, ((run 44100 inARow).studio.node? id).isSome = true := by decide +kernel
  have hfacts : ∀ id < 4, ∀ node ∈ (run 44100 inARow).studio.node? id,
      node.id = id ∧ node.context = 0 ∧ node.outlet.context = 0 := by decide +kernel
  have hplace {id : NodeId} (hid : id < 4) {node : Node}
      (hnode : (run 44100 inARow).studio.node? id = some node) :
      (run 44100 inARow).studio.node? node.id = some node ∧ node.context = 0 := by
    obtain ⟨hown, hcontext, -⟩ := hfacts id hid node hnode
    exact ⟨by rw [hown, hnode], hcontext⟩
  obtain ⟨tone, htone⟩ := Option.isSome_iff_exists.1 (hsome 0 (by decide))
  obtain ⟨first, hfirst⟩ := Option.isSome_iff_exists.1 (hsome 1 (by decide))
  obtain ⟨second, hsecond⟩ := Option.isSome_iff_exists.1 (hsome 2 (by decide))
  obtain ⟨third, hthird⟩ := Option.isSome_iff_exists.1 (hsome 3 (by decide))
  let group : Bracketing := .several (.several (.single tone) [.single first])
    [.several (.single second) [], .single third]
  have hnodes : group.nodes = [tone, first, second, third] := rfl
  have hknown : ∀ node ∈ group.nodes,
      (run 44100 inARow).studio.node? node.id = some node ∧ node.context = 0 := by
    rw [hnodes]
    simpa using ⟨hplace (by decide) htone, hplace (by decide) hfirst, hplace (by decide) hsecond,
      hplace (by decide) hthird⟩
  have houtlets : ∀ node ∈ group.nodes, node.outlet.context = 0 := by
    rw [hnodes]
    simpa using ⟨(hfacts 0 (by decide) tone htone).2.2, (hfacts 1 (by decide) first hfirst).2.2,
      (hfacts 2 (by decide) second hsecond).2.2, (hfacts 3 (by decide) third hthird).2.2⟩
  obtain ⟨hsame, hsucceeds, -, halike⟩ := bracketed_alike 44100 inARow group 0 hknown
  obtain ⟨other, u, hother⟩ := ok_of_succeeds (hsucceeds houtlets)
  obtain ⟨node, t, hnode⟩ := ok_of_succeeds (hsame.trans (hsucceeds houtlets))
  exact ⟨group, rfl, hknown, node, t, other, u, hnode, hother, halike node t other u hnode hother⟩

-- A gain, the series that is heard from another context, and the gain again: as a row, the gain has been
-- connected to the series before the series cannot be connected to the gain; with the latter two in
-- brackets, nothing has been connected.
theorem stray_bracketed : ∃ group : Bracketing, (∀ node ∈ group.nodes,
      (run 44100 stray).studio.node? node.id = some node ∧ node.context = 0) ∧
    group.compose.succeeds (run 44100 stray).studio = false ∧
    ((group.compose.after (run 44100 stray).studio).engine 0).connections 2 = [] ∧
    (((Node.inSeries group.front group.others).after (run 44100 stray).studio).engine 0).connections 2 =
      [.node 1] := by
  have hsome : ∀ id ∈ [1, 5], ((run 44100 stray).studio.node? id).isSome = true := by
    decide +kernel
  obtain ⟨gain, hgain⟩ := Option.isSome_iff_exists.1 (hsome 1 (by simp))
  obtain ⟨chain, hchain⟩ := Option.isSome_iff_exists.1 (hsome 5 (by simp))
  have hfacts : ∀ gain ∈ (run 44100 stray).studio.node? 1,
      ∀ chain ∈ (run 44100 stray).studio.node? 5,
      (gain.id = 1 ∧ gain.context = 0) ∧ (chain.id = 5 ∧ chain.context = 0) ∧
      (Bracketing.several (.single gain) [.several (.single chain) [.single gain]]).compose.succeeds
        (run 44100 stray).studio = false ∧
      ((Bracketing.several (.single gain) [.several (.single chain) [.single gain]]).compose.after
        (run 44100 stray).studio |>.engine 0).connections 2 = [] ∧
      ((Node.inSeries gain [chain, gain]).after (run 44100 stray).studio |>.engine 0).connections 2 =
        [.node 1] := by decide +kernel
  obtain ⟨⟨hid, hcontext⟩, ⟨hid', hcontext'⟩, hfails, hgrouped, hflat⟩ := hfacts gain hgain chain hchain
  refine ⟨.several (.single gain) [.several (.single chain) [.single gain]], ?_, hfails, hgrouped, hflat⟩
  have hnode : (run 44100 stray).studio.node? gain.id = some gain ∧ gain.context = 0 :=
    ⟨by rw [hid, hgain], hcontext⟩
  have hnode' : (run 44100 stray).studio.node? chain.id = some chain ∧ chain.context = 0 :=
    ⟨by rw [hid', hchain], hcontext'⟩
  simpa [Bracketing.nodes, Bracketing.front, Bracketing.others, Bracketing.row] using
    ⟨hnode, hnode', hnode⟩

end Session

end Patchbay
