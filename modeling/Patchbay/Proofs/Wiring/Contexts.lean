import Patchbay.Proofs.Disconnection.Cascade

namespace Patchbay

open Act

-- A connection from a host node of a context.
structure Wire where
  context : ContextId
  source : HostId
  target : Endpoint

def Wire.call (wire : Wire) : HostCall := .connect wire.source wire.target

-- It leads from a host node of the one to a host node of the other, in its context.
def Wire.Joins (wire : Wire) (node next : Node) : Prop :=
  (wire.context, wire.source) ∈ node.hosts ∧
    ∃ host, wire.target = .node host ∧ (wire.context, host) ∈ next.hosts

-- The hosts log these connections from one to the other, and nothing else.
def Logs (s : Studio) (wires : List Wire) (t : Studio) : Prop :=
  ∀ c, (t.engine c).calls.toList =
    (s.engine c).calls.toList ++ (wires.filter (·.context = c)).map Wire.call

-- Besides, no host node is any other than before.
structure Lays (s : Studio) (wires : List Wire) (t : Studio) : Prop where
  contexts : t.engines.size = s.engines.size
  hosts : ∀ c, (t.engine c).nodes = (s.engine c).nodes
  calls : Logs s wires t

namespace Lays

variable {s t u : Studio} {wires rest : List Wire}

theorem nil (s : Studio) : Lays s [] s := ⟨rfl, fun _ => rfl, fun _ => by simp⟩

theorem append (h : Lays s wires t) (h' : Lays t rest u) : Lays s (wires ++ rest) u where
  contexts := h'.contexts.trans h.contexts
  hosts c := (h'.hosts c).trans (h.hosts c)
  calls c := by rw [h'.calls, h.calls, List.filter_append, List.map_append, List.append_assoc]

-- What goes into a node shows on the host nodes.
theorem inputs (h : Lays s wires t) (node : Node) : t.inputs node = s.inputs node := by
  have hsame : (fun context host => (t.engine context).inputs host) =
      fun context host => (s.engine context).inputs host := by
    funext context host
    rw [Engine.inputs, h.hosts, ← Engine.inputs]
  rw [Studio.inputs, hsame, ← Studio.inputs]

end Lays

theorem Engine.record_connect {engine after : Engine} {source : HostId} {target : Endpoint}
    (h : engine.connect source target = .ok after) :
    after = engine.record (.connect source target) := by
  obtain ⟨node, -, h⟩ := ok_of_bind h
  cases target with
  | node id =>
      obtain ⟨other, -, h⟩ := ok_of_bind h
      obtain ⟨-, h⟩ := ok_of_check h
      cases h
      rfl
  | param id param =>
      obtain ⟨other, -, h⟩ := ok_of_bind h
      obtain ⟨-, h⟩ := ok_of_check h
      cases h
      rfl

theorem Engine.calls_connect {engine after : Engine} {source : HostId} {target : Endpoint}
    (h : engine.connect source target = .ok after) :
    after.nodes = engine.nodes ∧ after.calls = engine.calls.push (.connect source target) := by
  rw [record_connect h]
  exact ⟨rfl, rfl⟩

-- The host of a context connects it, or refuses for a reason of its own.
theorem ends_connectHost {s : Studio} {c : ContextId} (hc : c < s.engines.size) (source : HostId)
    (endpoint : Endpoint) : Ends (Act.host c (·.connect source endpoint)) s
      (fun _ t => Lays s [⟨c, source, endpoint⟩] t ∧ t.nodes = s.nodes)
      fun e t => t = s ∧ ∃ fault, e = .host fault := by
  refine ends_host (fun after hafter => ⟨?_, rfl⟩) fun fault _ => ⟨rfl, fault, rfl⟩
  obtain ⟨hnodes, hcalls⟩ := Engine.calls_connect hafter
  let wired : Studio := { s with engines := s.engines.modify c fun _ => after }
  have hengine (d : ContextId) : wired.engine d =
      if c = d ∧ d < s.engines.size then after else s.engine d :=
    s.engine_setEngine c d after
  constructor
  case contexts => exact Array.size_modify
  case hosts =>
      intro d
      change (wired.engine d).nodes = _
      rw [hengine]
      split
      case isTrue heq => rw [hnodes, heq.1]
      case isFalse => rfl
  case calls =>
      intro d
      change (wired.engine d).calls.toList = _
      rw [hengine]
      by_cases heq : c = d
      · subst heq
        simp [hc, hcalls, Wire.call]
      · simp [heq]

namespace Node

variable {s t : Studio} {node next : Node}

theorem ends_connectEndpoint (hc : node.context < s.engines.size) (endpoint : Endpoint) :
    Ends (node.connectEndpoint endpoint) s
      (fun _ t => Lays s [⟨node.context, node.outputHost, endpoint⟩] t)
      fun e t => t = s ∧ ∃ fault, e = .host fault := by
  unfold connectEndpoint
  rw [ends_bind]
  refine (ends_connectHost hc node.outputHost endpoint).mono (fun _ t ht => ?_) fun _ _ h => h
  rw [changeNode, ends_modify]
  exact ⟨ht.1.contexts, ht.1.hosts, ht.1.calls⟩

-- Another context is noticed before anything is done.
theorem checkContext_across (h : node.context ≠ next.context) :
    node.checkContext next s = .error (.host (.acrossContexts node.label next.label)) s := by
  unfold checkContext
  rw [if_pos h]
  rfl

theorem connect_across (h : node.context ≠ next.context) :
    node.connect (.node next) s = .error (.host (.acrossContexts node.label next.label)) s := by
  change EStateM.bind (node.checkContext next) _ s = _
  rw [EStateM.bind, checkContext_across h]

theorem connect_param_across (h : node.context ≠ next.context) (param : Param) :
    node.connect (.param next param) s = .error (.host (.acrossContexts node.label next.label)) s := by
  change EStateM.bind (node.checkContext next) _ s = _
  rw [EStateM.bind, checkContext_across h]

-- From a node into another.
def wireInto (node next : Node) : Wire := ⟨node.context, node.outputHost, .node next.inputHost⟩

theorem ends_connect (hc : node.context < s.engines.size) :
    Ends (node.connect (.node next)) s
      (fun _ t => node.context = next.context ∧ Lays s [node.wireInto next] t)
      fun e t => t = s ∧ ∃ fault, e = .host fault ∧ (node.context ≠ next.context →
        fault = .acrossContexts node.label next.label) := by
  by_cases hsame : node.context = next.context
  · have hpasses : node.connect (.node next) = node.connectEndpoint (.node next.inputHost) := by
      change (node.checkContext next >>= fun _ => node.connectEndpoint (.node next.inputHost)) = _
      rw [checkContext, if_neg (not_not.2 hsame)]
      rfl
    rw [hpasses]
    refine (ends_connectEndpoint hc (.node next.inputHost)).mono (fun _ t h => ⟨hsame, h⟩) ?_
    rintro e t ⟨rfl, fault, rfl⟩
    exact ⟨rfl, fault, rfl, fun h => absurd hsame h⟩
  · unfold Ends
    rw [connect_across hsame]
    exact ⟨rfl, _, rfl, fun _ => rfl⟩

-- The pairs that a chain connects: each node and the next, if that takes an input.
def links (s : Studio) (node : Node) : List Node → List (Node × Node)
  | [] => []
  | next :: rest => if s.inputs next ≠ 0 then (node, next) :: next.links s rest else next.links s rest

theorem links_congr (h : ∀ node, t.inputs node = s.inputs node) (node : Node) (tail : List Node) :
    node.links t tail = node.links s tail := by
  induction tail generalizing node with
  | nil => rfl
  | cons next rest ih => rw [links, links, h, ih]

def Unlike (link : Node × Node) : Prop := link.1.context ≠ link.2.context

abbrev wire (link : Node × Node) : Wire := link.1.wireInto link.2

-- The links before the one that fails have been laid, each within one context. If that crosses from
-- one context to another, it fails for that.
def Breaks (s : Studio) (links : List (Node × Node)) (e : Error) (t : Studio) : Prop :=
  ∃ before link after fault, links = before ++ link :: after ∧ (∀ laid ∈ before, ¬Unlike laid) ∧
    Lays s (before.map wire) t ∧ e = .host fault ∧
    (Unlike link → fault = .acrossContexts link.1.label link.2.label)

theorem Breaks.after {first : Node × Node} {links : List (Node × Node)} {e : Error} {u : Studio}
    (hfirst : ¬Unlike first) (hlaid : Lays s [wire first] t) (h : Breaks t links e u) :
    Breaks s (first :: links) e u := by
  obtain ⟨before, link, after, fault, rfl, hbefore, hlays, rfl, hfault⟩ := h
  refine ⟨first :: before, link, after, fault, rfl, ?_, hlaid.append hlays, rfl, hfault⟩
  exact List.forall_mem_cons.2 ⟨hfirst, hbefore⟩

theorem ends_chain {tail : List Node}
    (hopened : ∀ part ∈ node :: tail, part.context < s.engines.size) :
    Ends (node.chain tail) s
      (fun _ t => (∀ link ∈ node.links s tail, ¬Unlike link) ∧
        Lays s ((node.links s tail).map wire) t)
      fun e t => Breaks s (node.links s tail) e t := by
  induction tail generalizing node s with
  | nil =>
      rw [chain, ends_pure]
      exact ⟨by simp [links], .nil s⟩
  | cons next rest ih =>
      have hrest : ∀ part ∈ next :: rest, part.context < s.engines.size :=
        fun part hpart => hopened part (List.mem_cons_of_mem node hpart)
      rw [chain, ends_bind, ends_get, links]
      split
      case isFalse => exact ih hrest
      case isTrue =>
          rw [ends_bind]
          refine (ends_connect (hopened node List.mem_cons_self)).mono ?_ ?_
          · rintro _ t ⟨hsame, hlaid⟩
            have hfirst : ¬Unlike (node, next) := not_not.2 hsame
            have hlinks := links_congr hlaid.inputs next rest
            have ht := ih (s := t) fun part hpart => by
              rw [hlaid.contexts]
              exact hrest part hpart
            rw [hlinks] at ht
            refine ht.mono (fun _ u hu => ?_) fun e u hu => hu.after hfirst hlaid
            exact ⟨List.forall_mem_cons.2 ⟨hfirst, hu.1⟩, hlaid.append hu.2⟩
          · rintro e t ⟨rfl, fault, rfl, hfault⟩
            exact ⟨[], (node, next), next.links t rest, fault, rfl, by simp, .nil t, rfl, hfault⟩

-- A series that is made has had every link laid within one context.
theorem ends_inSeries {tail : List Node}
    (hopened : ∀ part ∈ node :: tail, part.context < s.engines.size) :
    Ends (inSeries node tail) s
      (fun _ t => (∀ link ∈ node.links s tail, ¬Unlike link) ∧ Logs s ((node.links s tail).map wire) t)
      fun e t => Breaks s (node.links s tail) e t := by
  unfold inSeries
  split
  case h_1 hnone =>
      obtain rfl := List.getLast?_eq_none_iff.1 hnone
      rw [ends_pure]
      exact ⟨by simp [links], (Lays.nil s).calls⟩
  case h_2 last _ =>
      rw [ends_bind]
      refine (ends_chain hopened).mono (fun _ t ht => ?_) fun _ _ h => h
      obtain ⟨hsame, hlays⟩ := ht
      refine (ends_enrolled t).mono (fun _ u hu => ⟨hsame, fun c => ?_⟩) fun _ _ h => h.elim
      obtain ⟨-, state, -, huntouched⟩ := hu
      rw [huntouched.calls]
      exact hlays.calls c

-- All that it reaches belongs to its own context.
def Local (node : Node) : Prop := ∀ inner ∈ node.reach, inner.context = node.context

theorem Local.part (h : node.Local) {part : Node} (hpart : part ∈ node.parts) :
    part.Local ∧ part.context = node.context := by
  have hself : part.context = node.context := h part (part_mem_reach hpart)
  refine ⟨fun inner hinner => ?_, hself⟩
  rw [hself]
  exact h inner (reach_trans hinner (part_mem_reach hpart))

theorem mem_hosts_of_part {part : Node} (hpart : part ∈ node.parts) {context : ContextId}
    {host : HostId} (h : (context, host) ∈ part.hosts) : (context, host) ∈ node.hosts := by
  obtain ⟨inner, hinner, hcontext, hown⟩ := mem_hosts.1 h
  exact mem_hosts.2 ⟨inner, reach_trans hinner (part_mem_reach hpart), hcontext, hown⟩

theorem mem_hosts_of_own {host : HostId} (h : host ∈ node.ownHosts) :
    (node.context, host) ∈ node.hosts :=
  mem_hosts.2 ⟨node, self_mem_reach node, rfl, h⟩

-- A host node that is the node's own, or that of a part in turn.
theorem mem_hosts_of_step {f : Node → HostId}
    (hf : ∀ node : Node, f node ∈ node.ownHosts ∨ ∃ part ∈ node.parts, f node = f part)
    (h : node.Local) : (node.context, f node) ∈ node.hosts := by
  induction node using induct with
  | step node ih =>
      rcases hf node with hown | ⟨part, hpart, heq⟩
      · exact mem_hosts_of_own hown
      · obtain ⟨hlocal, hcontext⟩ := h.part hpart
        rw [heq, ← hcontext]
        exact mem_hosts_of_part hpart (ih part hpart hlocal)

theorem outputHost_mem_hosts (h : node.Local) : (node.context, node.outputHost) ∈ node.hosts := by
  refine mem_hosts_of_step (fun node => ?_) h
  cases node with
  | leaf | envelope | parallel => exact .inl (by simp [ownHosts, outputHost])
  | series info head tail => exact .inr (lastHost_eq head tail)
  | wrapped info inner others => exact .inr ⟨inner, List.mem_cons_self, rfl⟩

theorem inputHost_mem_hosts (h : node.Local) : (node.context, node.inputHost) ∈ node.hosts := by
  refine mem_hosts_of_step (fun node => ?_) h
  cases node with
  | leaf | envelope | parallel => exact .inl (by simp [ownHosts, inputHost])
  | series info head tail => exact .inr ⟨head, List.mem_cons_self, rfl⟩
  | wrapped info inner others => exact .inr ⟨inner, List.mem_cons_self, rfl⟩

end Node

-- Not refused for the contexts of nodes.
def Blind {α : Type} (result : Except HostFault α) : Prop :=
  ∀ source target, result ≠ .error (.acrossContexts source target)

namespace Blind

variable {α β : Type} {engine : Engine}

theorem bind {x : Except HostFault α} {f : α → Except HostFault β} (h : Blind x)
    (hf : ∀ a, Blind (f a)) : Blind (x >>= f) := by
  cases x with
  | ok a => exact hf a
  | error fault =>
      intro source target heq
      cases heq
      exact h source target rfl

theorem find (host : HostId) : Blind (engine.find host) := by
  unfold Engine.find
  split <;> simp [Blind]

theorem ok (a : α) : Blind (.ok a) := by simp [Blind]

theorem check {p : Prop} [Decidable p] {fault : HostFault} {f : Unit → Except HostFault β}
    (hfault : ∀ source target, fault ≠ .acrossContexts source target) (hf : Blind (f ())) :
    Blind (if p then throw fault >>= f else f ()) := by
  split
  case isTrue =>
      intro source target heq
      cases heq
      exact hfault source target rfl
  case isFalse => exact hf

theorem send (engine : Engine) (request : Request) : Blind (request.send engine) := by
  cases request with
  | connect source target =>
      refine (find source).bind fun _ => ?_
      cases target with
      | node id => exact (find id).bind fun _ => check (by simp) (ok _)
      | param id param => exact (find id).bind fun _ => check (by simp) (ok _)
  | start host time => exact (find host).bind fun _ => check (by simp) (check (by simp) (ok _))
  | stop host time => exact (find host).bind fun _ => check (by simp) (ok _)
  | setParam host param x => exact (find host).bind fun _ => check (by simp) (ok _)
  | setBuffer host => exact (find host).bind fun _ => check (by simp) (ok _)
  | schedule host param event => exact (find host).bind fun _ => check (by simp) (ok _)

end Blind

-- Whatever nodes it is given, it does not fail for their contexts.
def Unasked {α : Type} (act : Act α) : Prop :=
  ∀ s, Ends act s (fun _ _ => True) fun e _ =>
    ∀ source target, e ≠ .host (.acrossContexts source target)

section Unasked

variable {α β : Type}

theorem unasked_pure (a : α) : Unasked (pure a) := by
  intro s
  rw [ends_pure]
  trivial

theorem unasked_bind {act : Act β} {next : β → Act α} (h : Unasked act)
    (hnext : ∀ b, Unasked (next b)) : Unasked (act >>= next) := by
  intro s
  rw [ends_bind]
  exact (h s).mono (fun b t _ => hnext b t) fun _ _ h => h

theorem unasked_request (context : ContextId) (request : Request) :
    Unasked (Act.host context request.send) := by
  refine fun s => ends_host (fun _ _ => trivial) fun fault hfault source target heq => ?_
  cases heq
  exact Blind.send (s.engine context) request source target hfault

theorem unasked_changeNode (id : NodeId) (f : NodeState → NodeState) :
    Unasked (changeNode id f) := by
  intro s
  rw [changeNode, ends_modify]
  trivial

theorem unasked_get : Unasked get := by
  intro s
  rw [ends_get]
  trivial

theorem unasked_createHost (context : ContextId) (kind : NodeKind) :
    Unasked (createHost context kind) := by
  intro s
  unfold createHost Act.engine setEngine
  simp only [ends_bind, ends_get, ends_modify, ends_pure]

theorem unasked_enrol {context : ContextId} {label : String} {duration release : Option Float}
    {make : NodeInfo → Node} : Unasked (Node.enrol context label duration release make) :=
  fun s => (Node.ends_enrolled s).mono (fun _ _ _ => trivial) fun _ _ h => h.elim

theorem unasked_connectEndpoint (node : Node) (endpoint : Endpoint) :
    Unasked (node.connectEndpoint endpoint) :=
  unasked_bind (unasked_request node.context (.connect node.outputHost endpoint)) fun _ =>
    unasked_changeNode _ _

theorem Drive.unasked_plug (context : ContextId) (host : HostId) (param : Param)
    (drive : Option Drive) : Unasked (Drive.plug context host param drive) := by
  cases drive with
  | none => exact unasked_pure none
  | some drive =>
      cases drive with
      | fixed x =>
          refine unasked_bind (unasked_request context (.setParam host param x)) fun _ => ?_
          exact unasked_pure none
      | source node =>
          refine unasked_bind (unasked_request context (.setParam host param 0)) fun _ => ?_
          refine unasked_bind (unasked_connectEndpoint node _) fun _ => ?_
          exact unasked_pure (some node)

namespace Node

-- A node of its own, whatever drives its parameters.
theorem unasked_ofKind (context : ContextId) (kind : NodeKind) (params : List (Param × Option Drive)) :
    Unasked (ofKind context kind params) := by
  have hbind (host : HostId) : Unasked (bind context host kind params) := by
    induction params with
    | nil => exact unasked_pure []
    | cons entry rest ih =>
        obtain ⟨param, drive⟩ := entry
        cases drive with
        | none => exact ih
        | some drive =>
            have hrest : Unasked (do
                let modulator ← Drive.plug context host param (some drive)
                return modulator.toList ++ (← bind context host kind rest)) :=
              unasked_bind (Drive.unasked_plug context host param (some drive)) fun _ =>
                unasked_bind ih fun _ => unasked_pure _
            rw [bind]
            split
            case isTrue =>
                refine unasked_bind (fun s => ?_) fun _ => hrest
                rw [ends_throw]
                simp
            case isFalse => exact hrest
  refine unasked_bind (unasked_createHost context kind) fun host => ?_
  refine unasked_bind (hbind host) fun _ => unasked_bind unasked_enrol fun node => ?_
  split
  case isTrue =>
      intro s
      unfold Act.engine setEngine
      simp only [ends_bind, ends_get, ends_modify, ends_pure]
  case isFalse => exact unasked_pure node

-- A mix, whatever its branches.
theorem unasked_inParallel (first : Node) (rest : List Node) : Unasked (inParallel first rest) := by
  have hjoin (context : ContextId) (input output : HostId) (branch : Node) :
      Unasked (joinBranch context input output branch) := by
    refine unasked_bind unasked_get fun studio => ?_
    split
    case isTrue =>
        refine unasked_bind (unasked_request context (.connect input (.node branch.inputHost))) ?_
        exact fun _ => unasked_connectEndpoint branch _
    case isFalse => exact unasked_connectEndpoint branch _
  have hall (context : ContextId) (input output : HostId) (branches : List Node) :
      Unasked (branches.forM (joinBranch context input output)) := by
    induction branches with
    | nil => exact unasked_pure _
    | cons branch branches ih => exact unasked_bind (hjoin context input output branch) fun _ => ih
  refine unasked_bind (unasked_createHost first.context .gain) fun input => ?_
  refine unasked_bind (unasked_createHost first.context .gain) fun output => ?_
  refine unasked_bind (unasked_request first.context (.setParam input .gain 1)) fun _ => ?_
  refine unasked_bind (unasked_request first.context (.setParam output .gain 1)) fun _ => ?_
  exact unasked_bind (hall _ _ _ _) fun _ => unasked_enrol

end Node

end Unasked

namespace Session

open Node

-- Where nodes are connected one to the other, to a parameter or in a series, nothing crosses from
-- one context to another. Nodes of different contexts are refused, and nothing is done. A series
-- is made with all of its links within a context, or fails at a link, for its contexts if these
-- are not the same, and has laid the links before. What is laid joins host nodes of the two nodes
-- in their context, as long as these are made within it themselves. Drives and the branches of a
-- mix are never refused for their contexts.
theorem crossing_refused (rate : Float) (commands : List Command) (node : Node) (tail : List Node)
    (hknown : ∀ part ∈ node :: tail, ∃ id, (run rate commands).studio.node? id = some part) :
    (∀ next ∈ tail, node.context ≠ next.context →
      node.connect (.node next) (run rate commands).studio =
        .error (.host (.acrossContexts node.label next.label)) (run rate commands).studio ∧
      ∀ param, node.connect (.param next param) (run rate commands).studio =
        .error (.host (.acrossContexts node.label next.label)) (run rate commands).studio) ∧
    ((∃ whole t, inSeries node tail (run rate commands).studio = .ok whole t ∧
        (∀ link ∈ node.links (run rate commands).studio tail, ¬Unlike link) ∧
        Logs (run rate commands).studio ((node.links (run rate commands).studio tail).map wire) t) ∨
      ∃ e t, inSeries node tail (run rate commands).studio = .error e t ∧
        Breaks (run rate commands).studio (node.links (run rate commands).studio tail) e t) ∧
    (∀ link ∈ node.links (run rate commands).studio tail, ¬Unlike link →
      link.1.Local → link.2.Local → (wire link).Joins link.1 link.2) ∧
    (∀ context kind params, Unasked (ofKind context kind params)) ∧
    ∀ first rest, Unasked (inParallel first rest) := by
  have hsound : (run rate commands).studio.ledger.Sound 0 := (lawful_run rate commands).sound
  have hopened : ∀ part ∈ node :: tail, part.context < (run rate commands).studio.engines.size := by
    intro part hpart
    obtain ⟨id, hid⟩ := hknown part hpart
    exact (hsound.formed (Studio.offers_of_node hsound hid).1.known).opened
  refine ⟨fun next _ hne => ⟨connect_across hne, connect_param_across hne⟩, ?_, ?_,
    unasked_ofKind, unasked_inParallel⟩
  · have hseries := ends_inSeries hopened
    cases hact : inSeries node tail (run rate commands).studio with
    | ok whole t => exact .inl ⟨whole, t, rfl, ends_of_ok hact hseries⟩
    | error e t => exact .inr ⟨e, t, rfl, ends_of_error hact hseries⟩
  · intro link _ hlike hfirst hsecond
    have hcontext : link.1.context = link.2.context := not_not.1 hlike
    have hinput := inputHost_mem_hosts hsecond
    rw [← hcontext] at hinput
    exact ⟨outputHost_mem_hosts hfirst, link.2.inputHost, rfl, hinput⟩

-- A tone and a gain of a second context, and a gain of the first whose level the tone drives.
def foreign : List Command := [
  .openContext 44100,
  .make 1 (.gain (.fixed 1)),
  .make 1 (.oscillator .sine (.fixed 5) none),
  .make 0 (.gain (.node 1))]

-- The tone is connected to the gain of its context before the series fails.
theorem foreign_refused : ∃ other tone amp, (run 44100 foreign).studio.node? 0 = some other ∧
    (run 44100 foreign).studio.node? 1 = some tone ∧
    (run 44100 foreign).studio.node? 2 = some amp ∧
    (∃ t, tone.connect (.node amp) (run 44100 foreign).studio =
      .error (.host (.acrossContexts tone.label amp.label)) t) ∧
    ∃ e t, inSeries tone [other, amp] (run 44100 foreign).studio = .error e t ∧
      Breaks (run 44100 foreign).studio [(tone, other), (other, amp)] e t := by
  have hsome : ∀ id ∈ [0, 1, 2], ((run 44100 foreign).studio.node? id).isSome = true := by
    decide +kernel
  obtain ⟨other, hother⟩ := Option.isSome_iff_exists.1 (hsome 0 (by simp))
  obtain ⟨tone, htone⟩ := Option.isSome_iff_exists.1 (hsome 1 (by simp))
  obtain ⟨amp, hamp⟩ := Option.isSome_iff_exists.1 (hsome 2 (by simp))
  have hfacts : ∀ other ∈ (run 44100 foreign).studio.node? 0,
      ∀ tone ∈ (run 44100 foreign).studio.node? 1, ∀ amp ∈ (run 44100 foreign).studio.node? 2,
      tone.context ≠ amp.context ∧ (run 44100 foreign).studio.inputs other ≠ 0 ∧
        (run 44100 foreign).studio.inputs amp ≠ 0 ∧
        (inSeries tone [other, amp]).succeeds (run 44100 foreign).studio = false := by
    decide +kernel
  obtain ⟨hcontext, hfirst, hsecond, hfails⟩ := hfacts other hother tone htone amp hamp
  have hlinks : tone.links (run 44100 foreign).studio [other, amp] =
      [(tone, other), (other, amp)] := by
    simp [links, hfirst, hsecond]
  obtain ⟨hconnect, hseries, -⟩ := crossing_refused 44100 foreign tone [other, amp] (by
    simp only [List.forall_mem_cons]
    exact ⟨⟨1, htone⟩, ⟨0, hother⟩, ⟨2, hamp⟩, by simp⟩)
  have hrefused := (hconnect amp (by simp) hcontext).1
  refine ⟨other, tone, amp, hother, htone, hamp, ⟨_, hrefused⟩, ?_⟩
  rw [← hlinks]
  refine hseries.resolve_left ?_
  rintro ⟨whole, t, ht, -⟩
  simp [Act.succeeds, ht] at hfails

-- Drives are not asked for their contexts. The gain is made, and what the host of the tone logs
-- is a connection to the gain of its own that has the same number.
theorem foreign_wired : ∃ node ∈ (run 44100 foreign).studio.node? 2, node.context = 0 ∧
    (∃ part ∈ node.parts, part.context = 1) ∧
    ((run 44100 foreign).studio.engine 1).isConnected 2 (.param 1 .gain) = true := by
  decide +kernel

end Session

end Patchbay
