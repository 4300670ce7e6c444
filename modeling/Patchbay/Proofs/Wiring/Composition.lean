import Patchbay.Proofs.Builder.Buildable
import Patchbay.Proofs.Wiring.Bracketing

namespace Patchbay

open Act

-- What is known of a node from the outside when it is connected.
structure Jack where
  id : NodeId
  context : ContextId
  input : HostId
  output : HostId

def Node.jack (node : Node) : Jack := ⟨node.id, node.context, node.inputHost, node.outputHost⟩

-- A connection to be made.
structure Lead where
  wire : Wire
  -- The node that counts as connected by it; the input of a mix is none of its own.
  source : Option NodeId
  -- From a node to a node of another context.
  crosses : Bool

namespace Jack

-- Wherever the endpoint is.
def lead (jack : Jack) (endpoint : Endpoint) : Lead :=
  ⟨⟨jack.context, jack.output, endpoint⟩, some jack.id, false⟩

def into (jack next : Jack) : Lead :=
  { jack.lead (.node next.input) with crosses := jack.context ≠ next.context }

end Jack

-- Nothing speaks against the connection.
def Lead.Taken (lead : Lead) (s : Studio) : Prop := lead.crosses = false ∧ lead.wire.Fits s

def HostCall.wire? (c : ContextId) : HostCall → Option Wire
  | .connect source target => some ⟨c, source, target⟩
  | _ => none

-- The connections that a host has logged, in their order.
def Studio.wired (s : Studio) (c : ContextId) : List Wire :=
  (s.engine c).calls.toList.filterMap (HostCall.wire? c)

-- Just these connections have been made. Of the nodes that there were, those count as connected that
-- did before, and those that one of the connections leads from.
structure Tied (s : Studio) (leads : List Lead) (t : Studio) : Prop extends Lasting s t where
  nodes : s.nodes.size ≤ t.nodes.size
  wired : ∀ c, t.wired c = s.wired c ++ (leads.map Lead.wire).filter (·.context = c)
  connected : ∀ id < s.nodes.size,
    t.connected id = (s.connected id || leads.any (·.source = some id))

-- The connections have been made up to one that is refused, and this one has not.
def Halted (s : Studio) (leads : List Lead) (e : Error) (t : Studio) : Prop :=
  ∃ before refused after, leads = before ++ refused :: after ∧ (∀ lead ∈ before, lead.Taken t) ∧
    ¬refused.Taken t ∧ Tied s before t ∧ ∃ fault, e = .host fault

namespace Lasting

variable {s t : Studio} {c : ContextId} {host : HostId}

theorem there (hst : Lasting s t) {own : HostNode} (hown : (s.engine c).nodes[host]? = some own) :
    ∃ other, (t.engine c).nodes[host]? = some other ∧ other.kind = own.kind :=
  Option.map_eq_some_iff.1 (hst.kinds c host own.kind (by rw [Studio.kind?, hown]; rfl))

theorem inputs (hst : Lasting s t) (h : ((s.engine c).nodes[host]?).isSome = true) :
    (t.engine c).inputs host = (s.engine c).inputs host := by
  obtain ⟨own, hown⟩ := Option.isSome_iff_exists.1 h
  obtain ⟨other, hother, hkind⟩ := hst.there hown
  rw [Engine.inputs, hother, Engine.inputs, hown, Option.elim_some, Option.elim_some,
    HostNode.inputs, hkind, ← HostNode.inputs]

end Lasting

-- What fits goes on to.
theorem Wire.Fits.lasting {wire : Wire} {s t : Studio} (h : wire.Fits s) (hst : Lasting s t) :
    wire.Fits t := by
  obtain ⟨hsource, hadmits⟩ := h
  obtain ⟨own, hown⟩ := Option.isSome_iff_exists.1 hsource
  obtain ⟨other, hother, -⟩ := hst.there hown
  refine ⟨by rw [hother]; rfl, ?_⟩
  cases htarget : wire.target with
  | node host =>
      rw [htarget, Engine.admits] at hadmits
      have hthere : ((s.engine wire.context).nodes[host]?).isSome = true := by
        by_contra hnone
        simp [Engine.inputs, Option.not_isSome_iff_eq_none.1 hnone] at hadmits
      rw [Engine.admits, hst.inputs hthere]
      exact hadmits
  | param host param =>
      rw [htarget, Engine.admits, Engine.param?_eq] at hadmits
      obtain ⟨own, hown, hparam⟩ := (Option.any_eq_true _ _).1 hadmits
      obtain ⟨other, hother, hkind⟩ := hst.there hown
      rw [Engine.admits, Engine.param?_eq, hother, Option.any_some, HostNode.hasParam,
        HostNode.params, hkind, ← HostNode.params, ← HostNode.hasParam]
      exact hparam

theorem Lead.Taken.lasting {lead : Lead} {s t : Studio} (h : lead.Taken s) (hst : Lasting s t) :
    lead.Taken t :=
  ⟨h.1, h.2.lasting hst⟩

namespace Tied

variable {s t u : Studio} {leads more : List Lead}

theorem nil (s : Studio) : Tied s [] s where
  toLasting := refl_of Lasting s
  nodes := Nat.le_refl _
  wired _ := by simp
  connected _ _ := by simp

theorem append (h : Tied s leads t) (h' : Tied t more u) : Tied s (leads ++ more) u where
  toLasting := trans_of Lasting h.toLasting h'.toLasting
  nodes := Nat.le_trans h.nodes h'.nodes
  wired c := by rw [h'.wired, h.wired, List.map_append, List.filter_append, List.append_assoc]
  connected id hid := by
    rw [h'.connected id (Nat.lt_of_lt_of_le hid h.nodes), h.connected id hid, List.any_append,
      Bool.or_assoc]

-- The log of a host shows what has been laid.
theorem wired_lays {wires : List Wire} (h : Lays s wires t) (c : ContextId) :
    t.wired c = s.wired c ++ wires.filter (·.context = c) := by
  rw [Studio.wired, h.calls, List.filterMap_append, ← Studio.wired, List.filterMap_map]
  congr 1
  refine (List.filterMap_congr fun wire hwire => ?_).trans List.filterMap_some
  have hcontext : wire.context = c := by simpa using (List.mem_filter.1 hwire).2
  rw [Function.comp_apply, Wire.call, HostCall.wire?, ← hcontext]

theorem lasting_lays {wires : List Wire} (h : Lays s wires t) : Lasting s t where
  contexts := h.contexts
  kinds c host kind hkind := by rwa [Studio.kind?, h.hosts, ← Studio.kind?]

-- One connection, made by the host.
theorem of_lays {lead : Lead} (h : Lays s [lead.wire] t) (hnodes : t.nodes.size = s.nodes.size)
    (hconnected : ∀ id < s.nodes.size,
      t.connected id = (s.connected id || lead.source = some id)) : Tied s [lead] t where
  toLasting := lasting_lays h
  nodes := Nat.le_of_eq hnodes.symm
  wired c := wired_lays h c
  connected id hid := by simpa using hconnected id hid

-- A change of a host that connects nothing.
theorem of_engine {context : ContextId} {engine : Engine}
    (hkept : Kept s { s with engines := s.engines.modify context fun _ => engine })
    (hcalls : engine.calls.toList.filterMap (HostCall.wire? context) = s.wired context) :
    Tied s [] { s with engines := s.engines.modify context fun _ => engine } where
  contexts := hkept.contexts
  kinds := hkept.kinds
  nodes := Nat.le_refl _
  wired c := by
    rw [Studio.wired, s.engine_setEngine]
    split
    case isTrue hc =>
        obtain ⟨rfl, -⟩ := hc
        simp [hcalls]
    case isFalse => simp [Studio.wired]
  connected _ _ := by simp [Studio.connected]

-- A new node may count as connected besides.
theorem marked (h : Tied s leads t) {id : NodeId} (hnew : s.nodes.size ≤ id) (connected : Bool) :
    Tied s leads { t with nodes := t.nodes.modify id fun state => { state with connected } } where
  contexts := h.contexts
  kinds := h.kinds
  nodes := Nat.le_trans h.nodes (Nat.le_of_eq Array.size_modify.symm)
  wired := h.wired
  connected other hother := by
    rw [t.connected_modify, if_neg (Nat.ne_of_lt (Nat.lt_of_lt_of_le hother hnew))]
    exact h.connected other hother

end Tied

theorem Halted.before {s t : Studio} {leads more : List Lead} {e : Error} (h : Halted s leads e t) :
    Halted s (leads ++ more) e t := by
  obtain ⟨before, refused, after, rfl, hrest⟩ := h
  exact ⟨before, refused, after ++ more, by simp, hrest⟩

theorem Halted.after {s t u : Studio} {leads more : List Lead} {e : Error}
    (htaken : ∀ lead ∈ leads, lead.Taken t) (hst : Tied s leads t) (h : Halted t more e u) :
    Halted s (leads ++ more) e u := by
  obtain ⟨before, refused, after, rfl, hbefore, hrefused, htu, hfault⟩ := h
  refine ⟨leads ++ before, refused, after, by simp, ?_, hrefused, hst.append htu, hfault⟩
  refine List.forall_mem_append.2 ⟨fun lead hlead => ?_, hbefore⟩
  exact (htaken lead hlead).lasting htu.toLasting

-- The act makes these connections in this order, as long as none of them is refused.
def Act.Leads {α : Type} (act : Act α) (s : Studio) (leads : List Lead)
    (ok : α → Studio → Prop) : Prop :=
  Ends act s (fun a t => (∀ lead ∈ leads, lead.Taken t) ∧ Tied s leads t ∧ ok a t)
    fun e t => Halted s leads e t

section Leads

variable {α β : Type} {s : Studio} {act : Act α} {leads more : List Lead} {ok : α → Studio → Prop}

theorem leads_quiet (h : Ends act s (fun a t => Tied s [] t ∧ ok a t) fun _ _ => False) :
    Leads act s [] ok :=
  Ends.mono h (fun _ _ ht => ⟨by simp, ht⟩) fun _ _ h => h.elim

theorem leads_pure {a : α} (h : ok a s) : Leads (pure a) s [] ok :=
  leads_quiet ((ends_pure a).2 ⟨.nil s, h⟩)

theorem leads_read {next : Studio → Act α} (h : Leads (next s) s leads ok) :
    Leads (get >>= next) s leads ok := by
  unfold Leads
  rw [ends_bind, ends_get]
  exact h

theorem Act.Leads.mono {ok' : α → Studio → Prop} (h : Leads act s leads ok)
    (hok : ∀ a t, Tied s leads t → ok a t → ok' a t) : Leads act s leads ok' :=
  Ends.mono h (fun a t ht => ⟨ht.1, ht.2.1, hok a t ht.2.1 ht.2.2⟩) fun _ _ ht => ht

theorem leads_bind {next : α → Act β} {ok' : β → Studio → Prop} (h : Leads act s leads ok)
    (hnext : ∀ a t, Tied s leads t → ok a t → Leads (next a) t more ok') :
    Leads (act >>= next) s (leads ++ more) ok' := by
  unfold Leads
  rw [ends_bind]
  refine Ends.mono h ?_ fun e t ht => ht.before
  rintro a t ⟨htaken, hst, ha⟩
  refine Ends.mono (hnext a t hst ha) ?_ fun e u hu => hu.after htaken hst
  rintro b u ⟨htaken', htu, hb⟩
  refine ⟨List.forall_mem_append.2 ⟨fun lead hlead => ?_, htaken'⟩, hst.append htu, hb⟩
  exact (htaken lead hlead).lasting htu.toLasting

-- What connects nothing by itself.
theorem leads_then {next : α → Act β} {ok' : β → Studio → Prop} (h : Leads act s [] ok)
    (hnext : ∀ a t, Tied s [] t → ok a t → Leads (next a) t more ok') :
    Leads (act >>= next) s more ok' :=
  leads_bind h hnext

theorem leads_last {next : α → Act β} {ok' : β → Studio → Prop} (h : Leads act s leads ok)
    (hnext : ∀ a t, Tied s leads t → ok a t → Leads (next a) t [] ok') :
    Leads (act >>= next) s leads ok' := by
  rw [← List.append_nil leads]
  exact leads_bind h hnext

theorem leads_forM {items : List β} {act : β → Act PUnit} {lead : β → List Lead}
    (h : ∀ b ∈ items, ∀ t, Lasting s t → Leads (act b) t (lead b) fun _ _ => True) :
    Leads (items.forM act) s (items.flatMap lead) fun _ _ => True := by
  induction items generalizing s with
  | nil => exact leads_pure trivial
  | cons b rest ih =>
      refine leads_bind (h b List.mem_cons_self s (refl_of Lasting s)) fun _ t hst _ => ih ?_
      exact fun other hother u htu =>
        h other (List.mem_cons_of_mem b hother) u (trans_of Lasting hst.toLasting htu)

end Leads

-- The next node that is made of a new host node of its own, after so many more of these.
def Studio.jack (s : Studio) (context : ContextId) (made : Nat) : Jack :=
  let host := (s.engine context).nodes.size + made
  ⟨s.nodes.size + made, context, host, host⟩

theorem Studio.jack_congr {s t : Studio} (hnodes : t.nodes.size = s.nodes.size)
    (hhosts : ∀ c, (t.engine c).nodes.size = (s.engine c).nodes.size) : t.jack = s.jack := by
  funext c made
  rw [jack, hnodes, hhosts, ← jack]

theorem Studio.sizes_of_jack {s t : Studio} (h : t.jack = s.jack) :
    t.nodes.size = s.nodes.size ∧ ∀ c, (t.engine c).nodes.size = (s.engine c).nodes.size :=
  ⟨congrArg Jack.id (congrFun₂ h 0 0), fun c => congrArg Jack.input (congrFun₂ h c 0)⟩

section Making

variable {s : Studio} {c : ContextId}

theorem leads_connectHost (wire : Wire) (hc : wire.context < s.engines.size) :
    Leads (Act.host wire.context (·.connect wire.source wire.target)) s [⟨wire, none, false⟩]
      fun _ _ => True := by
  refine (ends_wire wire hc).mono ?_ ?_
  · rintro _ t ⟨hfit, hlays, hnodes⟩
    have hst : Tied s [⟨wire, none, false⟩] t :=
      .of_lays hlays (congrArg Array.size hnodes) fun id _ => by simp [Studio.connected, hnodes]
    exact ⟨by simpa using Lead.Taken.lasting ⟨rfl, hfit⟩ hst.toLasting, hst, trivial⟩
  · rintro e t ⟨hunfit, rfl, hfault⟩
    exact ⟨[], ⟨wire, none, false⟩, [], rfl, by simp, fun htaken => hunfit htaken.2, .nil t, hfault⟩

theorem leads_createHost (hc : c < s.engines.size) (kind : NodeKind) :
    Leads (createHost c kind) s [] fun host t => host = (s.engine c).nodes.size ∧
      t.kind? c host = some (some kind) ∧ t.nodes = s.nodes ∧
      (t.engine c).nodes.size = (s.engine c).nodes.size + 1 := by
  let t : Studio := { s with engines := s.engines.modify c fun _ => ((s.engine c).create kind).2 }
  have hact : createHost c kind s = .ok (s.engine c).nodes.size t := rfl
  have hengine : t.engine c = ((s.engine c).create kind).2 := Studio.engine_set hc _
  have hst : Tied s [] t := by
    refine .of_engine (.of_create c kind) ?_
    simp [Engine.create, Engine.record, Studio.wired, HostCall.wire?]
  refine leads_quiet (ends_of_eq hact ⟨hst, rfl, ?_, rfl, ?_⟩)
  · simp [Studio.kind?, hengine, Engine.create, Engine.record, HostNode.ofKind]
  · simp [hengine, Engine.create, Engine.record]

theorem leads_setParam {host : HostId} {kind : NodeKind} {param : Param}
    (hkind : s.kind? c host = some (some kind)) (hparam : kind.params.contains param = true)
    (x : Float) : Leads (Act.host c (·.setParam host param x)) s [] fun _ t => t.jack = s.jack := by
  obtain ⟨after, hafter⟩ := Engine.setParam_ok hkind hparam x
  have hsend : (Request.setParam host param x).send (s.engine c) = .ok after := hafter
  obtain ⟨-, hnodes⟩ := Request.nodes_send hsend
  refine leads_quiet (ends_host (fun engine hengine => ?_) fun fault hfault => ?_)
  · obtain rfl : engine = after := Except.ok.inj (hengine.symm.trans hafter)
    have hst : Tied s [] { s with engines := s.engines.modify c fun _ => engine } := by
      refine .of_engine (.of_request hsend) ?_
      rw [Request.filterMap_send _ hsend]
      exact List.append_nil _
    refine ⟨hst, Studio.jack_congr rfl fun d => ?_⟩
    rw [s.engine_setEngine]
    split
    case isTrue hd => rw [hnodes, Array.size_modify, hd.1]
    case isFalse => rfl
  · rw [hafter] at hfault
    cases hfault

namespace Node

variable {node next : Node}

theorem leads_connectEndpoint (hc : node.context < s.engines.size) (endpoint : Endpoint) :
    Leads (node.connectEndpoint endpoint) s [node.jack.lead endpoint] fun _ t =>
      t.jack = s.jack ∧ t.inputs = s.inputs := by
  refine (ends_wired hc endpoint).mono ?_ ?_
  · rintro _ t ⟨hfit, hlays, hnodes⟩
    have hsize : t.nodes.size = s.nodes.size := by rw [hnodes, Array.size_modify]
    have hst : Tied s [node.jack.lead endpoint] t := by
      refine .of_lays hlays hsize fun id hid => ?_
      have hstate : (s.nodes[id]?).isSome = true := by simpa using hid
      have hconnected := s.connected_modify node.id id true
      rw [Studio.connected] at hconnected ⊢
      rw [hnodes, hconnected]
      by_cases heq : id = node.id
      · subst heq
        simp [hstate, Jack.lead, jack]
      · simp [heq, Ne.symm heq, Jack.lead, jack]
    refine ⟨by simpa using Lead.Taken.lasting ⟨rfl, hfit⟩ hst.toLasting, hst, ?_, hlays.inputs_eq⟩
    exact Studio.jack_congr hsize fun c => by rw [hlays.hosts]
  · rintro e t ⟨hunfit, rfl, hfault⟩
    exact ⟨[], _, [], rfl, by simp, fun htaken => hunfit htaken.2, .nil t, hfault⟩

theorem leads_connect (hc : node.context < s.engines.size) :
    Leads (node.connect (.node next)) s [node.jack.into next.jack] fun _ t =>
      t.jack = s.jack ∧ t.inputs = s.inputs := by
  by_cases hsame : node.context = next.context
  · have hlead : node.jack.into next.jack = node.jack.lead (.node next.inputHost) := by
      simp [Jack.into, Jack.lead, jack, hsame]
    rw [(connect_within hsame).1, hlead]
    exact leads_connectEndpoint hc _
  · unfold Leads Ends
    rw [connect_across hsame]
    refine ⟨[], _, [], rfl, by simp, fun htaken => ?_, .nil s, _, rfl⟩
    exact of_decide_eq_false htaken.1 hsame

theorem leads_enrol {context : ContextId} {label : String} {duration release : Option Float}
    {make : NodeInfo → Node} : Leads (enrol context label duration release make) s [] fun node t =>
      (∃ info, node = make info ∧ info.id = s.nodes.size ∧ info.context = context) ∧
        t.engines = s.engines ∧ t.nodes.size = s.nodes.size + 1 := by
  refine leads_quiet ((ends_numbered s).mono ?_ fun _ _ h => h)
  rintro node t ⟨hnode, hengines, hsize, hconnected, -⟩
  refine ⟨?_, ⟨_, hnode, rfl, rfl⟩, hengines, hsize⟩
  have hlays : Lays s [] t := .of_engines hengines
  exact {
    toLasting := Tied.lasting_lays hlays
    nodes := Nat.le.intro hsize.symm
    wired := Tied.wired_lays hlays
    connected := fun id hid => by simpa using hconnected id hid }

-- Each node of a row into the next, if that takes an input.
def chainLeads (s : Studio) (node : Node) (tail : List Node) : List Lead :=
  (node.links s tail).map fun link => link.1.jack.into link.2.jack

theorem leads_chain {tail : List Node}
    (hopened : ∀ part ∈ node :: tail, part.context < s.engines.size) :
    Leads (node.chain tail) s (node.chainLeads s tail) fun _ t => t.jack = s.jack := by
  unfold chainLeads
  induction tail generalizing node s with
  | nil => exact leads_pure rfl
  | cons next rest ih =>
      have hrest : ∀ part ∈ next :: rest, part.context < s.engines.size :=
        fun part hpart => hopened part (List.mem_cons_of_mem node hpart)
      rw [chain, links]
      refine leads_read ?_
      split
      case isFalse => exact ih hrest
      case isTrue =>
          refine leads_bind (leads_connect (hopened node List.mem_cons_self)) fun _ t hst ht => ?_
          rw [← links_congr (congrFun ht.2) next rest, ← ht.1]
          exact ih (hst.contexts ▸ hrest)

-- The series is fed by its first node and heard by its last.
theorem leads_inSeries {head : Node} {tail : List Node} (hne : tail ≠ [])
    (hopened : ∀ part ∈ head :: tail, part.context < s.engines.size) :
    Leads (inSeries head tail) s (head.chainLeads s tail) fun node _ =>
      node.jack = ⟨s.nodes.size, head.context, head.inputHost, lastHost head.outputHost tail⟩ := by
  obtain ⟨label, duration, release, heq⟩ := inSeries_eq head hne
  rw [heq]
  refine leads_last (leads_chain hopened) fun _ t _ ht => leads_enrol.mono ?_
  rintro _ u - ⟨⟨info, rfl, hid, hcontext⟩, -⟩
  rw [← (Studio.sizes_of_jack ht).1, ← hid, ← hcontext]
  rfl

-- What is wrapped together is connected already.
theorem leads_wrap {inner : Node} {others : List Node} :
    Leads (wrap inner others) s [] fun _ _ => True := by
  unfold wrap
  split
  case isTrue => exact leads_pure trivial
  case isFalse =>
      refine leads_quiet ?_
      rw [ends_bind]
      refine Ends.mono leads_enrol ?_ ?_
      · rintro _ t ⟨-, hst, ⟨info, rfl, hid, -⟩, -⟩
        rw [ends_bind, ends_get, ends_bind, changeNode, ends_modify, ends_pure]
        exact ⟨hst.marked (Nat.le_of_eq hid.symm) _, trivial⟩
      · rintro e t ⟨before, refused, after, hnil, -⟩
        simp at hnil

end Node

-- The nodes that drive.
def Drive.nodes : Drive → List Node
  | .fixed _ => []
  | .source node => [node]

-- Drives are connected wherever they are.
def Drive.leads (drive : Drive) (host : HostId) (param : Param) : List Lead :=
  drive.nodes.map fun node => node.jack.lead (.param host param)

theorem Drive.leads_plug {host : HostId} {kind : NodeKind} {param : Param} {drive : Drive}
    (hkind : s.kind? c host = some (some kind)) (hparam : kind.params.contains param = true)
    (hopened : ∀ node ∈ drive.nodes, node.context < s.engines.size) :
    Leads (Drive.plug c host param (some drive)) s (drive.leads host param)
      fun _ t => t.jack = s.jack := by
  cases drive with
  | fixed x => exact leads_last (leads_setParam hkind hparam x) fun _ _ _ ht => leads_pure ht
  | source node =>
      refine leads_then (leads_setParam hkind hparam 0) fun _ t hst ht => ?_
      have hnode := hst.contexts ▸ hopened node List.mem_cons_self
      refine leads_last (node.leads_connectEndpoint hnode _) fun _ u _ hu => leads_pure ?_
      exact hu.1.trans ht

namespace Node

variable {node : Node}

-- A new node that is no source, with a drive.
theorem leads_ofKind {kind : NodeKind} {param : Param} (drive : Drive) (hc : c < s.engines.size)
    (hplain : kind.isSource = false) (hparam : kind.params.contains param = true)
    (hopened : ∀ node ∈ drive.nodes, node.context < s.engines.size) :
    Leads (ofKind c kind [(param, some drive)]) s (drive.leads (s.jack c 0).input param)
      fun node t => node.jack = s.jack c 0 ∧ (∀ made, t.jack c made = s.jack c (made + 1)) ∧
        t.inputs node = kind.inputs := by
  unfold ofKind
  refine leads_then (leads_createHost hc kind) fun host t hst ht => ?_
  obtain ⟨rfl, hkind, hnodes, hhosts⟩ := ht
  have hbind : Leads (bind c (s.engine c).nodes.size kind [(param, some drive)]) t
      (drive.leads (s.jack c 0).input param) fun _ u => u.jack = t.jack := by
    simp only [bind, hparam, Bool.not_true, pure_bind]
    exact leads_last (Drive.leads_plug hkind hparam (hst.contexts ▸ hopened))
      fun _ _ _ hu => leads_pure hu
  refine leads_last hbind fun modulators u htu hu => ?_
  refine leads_last leads_enrol fun node v huv hv => ?_
  obtain ⟨⟨info, rfl, hid, hcontext⟩, hengines, hsize⟩ := hv
  obtain ⟨hnodes', hhosts'⟩ := Studio.sizes_of_jack hu
  rw [hnodes', hnodes] at hid hsize
  have hown : v.kind? c (s.engine c).nodes.size = some (some kind) :=
    huv.kinds _ _ _ (htu.kinds _ _ _ hkind)
  have hinputs : v.inputs (.leaf info (s.engine c).nodes.size kind.isSource kind.params modulators) =
      kind.inputs := by
    obtain ⟨own, hown, hkind⟩ := Option.map_eq_some_iff.1 hown
    rw [Studio.inputs, findInputs, hcontext, Engine.inputs, hown, Option.elim_some, HostNode.inputs,
      hkind]
    rfl
  rw [hplain]
  refine leads_pure ⟨?_, fun made => ?_, hinputs⟩
  · rw [Studio.jack, ← hid, ← hcontext]
    rfl
  · have hhosts'' : (v.engine c).nodes.size = (s.engine c).nodes.size + 1 := by
      rw [Studio.engine, hengines, ← Studio.engine, hhosts', hhosts]
    simp only [Studio.jack, hsize, hhosts'', Nat.add_right_comm _ 1, Nat.add_assoc]

theorem leads_gain {level : Float} (hc : c < s.engines.size) :
    Leads (gain c (.fixed level)) s [] fun node t => node.jack = s.jack c 0 ∧
      (∀ made, t.jack c made = s.jack c (made + 1)) ∧ t.inputs node = 1 :=
  leads_ofKind (.fixed level) hc rfl rfl (by simp [Drive.nodes])

theorem leads_delay {time : Drive} (hc : c < s.engines.size)
    (htime : ∀ node ∈ time.nodes, node.context < s.engines.size) :
    Leads (delay c time) s (time.leads (s.jack c 0).input .delayTime) fun node t =>
      node.jack = s.jack c 0 ∧ ∀ made, t.jack c made = s.jack c (made + 1) :=
  (leads_ofKind time hc rfl rfl htime).mono fun _ _ _ ht => ⟨ht.1, ht.2.1⟩

-- A branch of a mix: fed if it takes an input, and heard.
def joinLeads (inputs : Node → Nat) (c : ContextId) (input output : HostId) (branch : Node) :
    List Lead :=
  (if 0 < inputs branch then [⟨⟨c, input, .node branch.inputHost⟩, none, false⟩] else []) ++
    [branch.jack.lead (.node output)]

theorem leads_joinBranch (input output : HostId) {branch : Node} (hc : c < s.engines.size)
    (hbranch : branch.context < s.engines.size) :
    Leads (joinBranch c input output branch) s (joinLeads s.inputs c input output branch)
      fun _ _ => True := by
  rw [joinBranch, joinLeads]
  refine leads_read ?_
  have hheard {t : Studio} (hst : s.engines.size = t.engines.size) :
      Leads (branch.connectEndpoint (.node output)) t [branch.jack.lead (.node output)]
        fun _ _ => True :=
    (leads_connectEndpoint (hst ▸ hbranch) _).mono fun _ _ _ _ => trivial
  split
  case isFalse => exact hheard rfl
  case isTrue =>
      refine leads_bind (leads_connectHost ⟨c, input, .node branch.inputHost⟩ hc) fun _ t hst _ => ?_
      exact hheard hst.contexts.symm

-- All branches between two new gains.
def mixLeads (s : Studio) (first : Node) (rest : List Node) : List Lead :=
  (first :: rest).flatMap
    (joinLeads s.inputs first.context (s.jack first.context 0).input (s.jack first.context 1).input)

theorem leads_inParallel {first : Node} {rest : List Node}
    (hopened : ∀ branch ∈ first :: rest, branch.context < s.engines.size)
    (hinputs : ∀ branch ∈ first :: rest, ∀ t, Lasting s t → t.inputs branch = s.inputs branch) :
    Leads (inParallel first rest) s (mixLeads s first rest) fun _ _ => True := by
  have hc := hopened first List.mem_cons_self
  refine leads_then (leads_createHost hc .gain) fun input t hst ht => ?_
  obtain ⟨rfl, hin, -, hhosts⟩ := ht
  refine leads_then (leads_createHost (hst.contexts ▸ hc) .gain) fun output u htu hu => ?_
  obtain ⟨rfl, hout, -⟩ := hu
  refine leads_then (leads_setParam (htu.kinds _ _ _ hin) rfl 1) fun _ v huv _ => ?_
  refine leads_then (leads_setParam (huv.kinds _ _ _ hout) rfl 1) fun _ w hvw _ => ?_
  have hsw := ((hst.append htu).append huv).append hvw
  have hjoin : Leads ((first :: rest).forM (joinBranch first.context
      (s.engine first.context).nodes.size (t.engine first.context).nodes.size)) w
      (mixLeads s first rest) fun _ _ => True := by
    rw [hhosts]
    refine leads_forM fun branch hbranch x hwx => ?_
    have hsx := trans_of Lasting hsw.toLasting hwx
    rw [joinLeads, ← hinputs branch hbranch x hsx, ← joinLeads]
    exact leads_joinBranch _ _ (hsx.contexts ▸ hc) (hsx.contexts ▸ hopened branch hbranch)
  exact leads_last hjoin fun _ x _ _ => leads_enrol.mono fun _ _ _ _ => trivial

theorem leads_feedback {amount : Float} (hc : node.context < s.engines.size) :
    Leads (feedback amount node) s [node.jack.into (s.jack node.context 0),
      (s.jack node.context 0).into node.jack] fun _ _ => True := by
  refine leads_then (leads_gain hc) fun back t hst ht => ?_
  rw [← ht.1]
  have hconnect : Leads (node.connect (.node back)) t [node.jack.into back.jack] fun _ _ => True :=
    (leads_connect (hst.contexts ▸ hc)).mono fun _ _ _ _ => trivial
  refine leads_bind hconnect fun _ u htu _ => ?_
  have hback : back.context = node.context := congrArg Jack.context ht.1
  have hu := (hst.append htu).contexts ▸ hback ▸ hc
  exact leads_last (leads_connect hu) fun _ _ _ _ => leads_wrap

-- What a line is led back to itself by: a colour, and a level after it.
def loopLeads (line color amount : Jack) : List Lead :=
  let again : Jack := { color with id := amount.id + 1, output := amount.output }
  [color.into amount, line.into again, again.into line]

theorem leads_loop {line color : Node} {amount : Float} (hc : c < s.engines.size)
    (hline : line.context < s.engines.size) (hcolor : color.context < s.engines.size) :
    Leads (do
      let again ← inSeries color [← gain c (.fixed amount)]
      line.connect (.node again)
      again.connect (.node line)
      wrap line [again]) s (loopLeads line.jack color.jack (s.jack c 0)) fun _ _ => True := by
  refine leads_then (leads_gain hc) fun level t hst ht => ?_
  obtain ⟨hlevel, hnext, hinputs⟩ := ht
  have hlevel' : level.context = c := congrArg Jack.context hlevel
  have hopened : ∀ part ∈ [color, level], part.context < t.engines.size := by
    rw [hst.contexts]
    simpa [hlevel'] using ⟨hcolor, hc⟩
  have hseries := leads_inSeries (List.cons_ne_nil level []) hopened
  rw [chainLeads, links, links, if_pos (by rw [hinputs]; exact Nat.one_ne_zero)] at hseries
  rw [loopLeads, ← hlevel]
  refine leads_bind hseries fun again u htu hagain => ?_
  have hsu := hst.append htu
  have hid : t.nodes.size = level.id + 1 := by
    have hsize : t.nodes.size = s.nodes.size + 1 := congrArg Jack.id (hnext 0)
    have hown : level.id = s.nodes.size := congrArg Jack.id hlevel
    rw [hsize, hown]
  have hagain' : again.jack =
      { color.jack with id := level.jack.id + 1, output := level.jack.output } := by
    rw [hagain, hid]
    rfl
  rw [← hagain']
  refine leads_bind (leads_connect (hsu.contexts ▸ hline)) fun _ v huv _ => ?_
  have hcolor' : again.context = color.context := congrArg Jack.context hagain
  have hv := (hsu.append huv).contexts ▸ hcolor' ▸ hcolor
  exact leads_last (leads_connect hv) fun _ _ _ _ => leads_wrap

-- A line with a drive, led back through a filter if there is one, and else through a gain in its place.
def echoLeads (s : Studio) (c : ContextId) (time : Drive) (filter : Option Node) : List Lead :=
  time.leads (s.jack c 0).input .delayTime ++ match filter with
    | some filter => loopLeads (s.jack c 0) filter.jack (s.jack c 1)
    | none => loopLeads (s.jack c 0) (s.jack c 1) (s.jack c 2)

theorem leads_echo {time : Drive} {filter : Option Node} {amount : Float} (hc : c < s.engines.size)
    (htime : ∀ node ∈ time.nodes, node.context < s.engines.size)
    (hfilter : ∀ node ∈ filter, node.context < s.engines.size) :
    Leads (echo c time filter amount) s (echoLeads s c time filter) fun _ _ => True := by
  unfold echoLeads
  refine leads_bind (leads_delay hc htime) fun line t hst ht => ?_
  obtain ⟨hline, hnext⟩ := ht
  have hline' : line.context = c := congrArg Jack.context hline
  have hc' : c < t.engines.size := hst.contexts ▸ hc
  rw [← hline]
  cases filter with
  | some filter =>
      rw [← hnext 0]
      exact leads_loop hc' (hline' ▸ hc') (hst.contexts ▸ hfilter filter rfl)
  | none =>
      refine leads_then (leads_gain hc') fun color u htu hu => ?_
      obtain ⟨hcolor, hnext', -⟩ := hu
      have hcolor' : color.context = c := congrArg Jack.context hcolor
      have hc'' : c < u.engines.size := htu.contexts ▸ hc'
      rw [← hnext 0, ← hnext 1, ← hcolor, ← hnext' 0]
      exact leads_loop hc'' (hline' ▸ hc'') (hcolor' ▸ hc'')

end Node

end Making

-- What a composition is asked for.
inductive Composition where
  | series (head : Node) (tail : List Node)
  | parallel (first : Node) (rest : List Node)
  | feedback (amount : Float) (node : Node)
  | echo (context : ContextId) (time : Drive) (filter : Option Node) (amount : Float)

namespace Composition

def act : Composition → Act Node
  | .series head tail => Node.inSeries head tail
  | .parallel first rest => Node.inParallel first rest
  | .feedback amount node => Node.feedback amount node
  | .echo context time filter amount => Node.echo context time filter amount

def context : Composition → ContextId
  | .series head _ => head.context
  | .parallel first _ => first.context
  | .feedback _ node => node.context
  | .echo context _ _ _ => context

-- The nodes that it is given.
def nodes : Composition → List Node
  | .series head tail => head :: tail
  | .parallel first rest => first :: rest
  | .feedback _ node => [node]
  | .echo _ time filter _ => time.nodes ++ filter.toList

-- The connections that it consists of, in their order.
def leads (s : Studio) : Composition → List Lead
  | .series head tail => head.chainLeads s tail
  | .parallel first rest => Node.mixLeads s first rest
  | .feedback _ node =>
    let back := s.jack node.context 0
    [node.jack.into back, back.into node.jack]
  | .echo context time filter _ => Node.echoLeads s context time filter

theorem leads_act {s : Studio} (composition : Composition)
    (hcontext : composition.context < s.engines.size)
    (hopened : ∀ node ∈ composition.nodes, node.context < s.engines.size)
    (hinputs : ∀ node ∈ composition.nodes, ∀ t, Lasting s t → t.inputs node = s.inputs node) :
    Leads composition.act s (composition.leads s) fun _ _ => True := by
  cases composition with
  | series head tail =>
      by_cases hnil : tail = []
      · subst hnil
        exact leads_pure trivial
      · exact (Node.leads_inSeries hnil hopened).mono fun _ _ _ _ => trivial
  | parallel first rest => exact Node.leads_inParallel hopened hinputs
  | feedback amount node => exact Node.leads_feedback hcontext
  | echo context time filter amount =>
      obtain ⟨htime, hfilter⟩ := List.forall_mem_append.1 hopened
      exact Node.leads_echo hcontext htime fun node hnode => hfilter node (by simpa using hnode)

end Composition

-- A node takes as many inputs as it did, whatever else is made.
theorem Studio.inputs_lasting {s t : Studio} (hsound : s.ledger.Sound 0) (hst : Lasting s t)
    {node : Node} (hnode : s.ledger.Knows node) : t.inputs node = s.inputs node := by
  induction node using Node.induct with
  | step node ih =>
      have hformed := hsound.formed hnode
      have hown {host : HostId} (hhost : host ∈ node.ownHosts) :
          (t.engine node.context).inputs host = (s.engine node.context).inputs host := by
        have hthere := hformed.hosts host hhost
        rw [Ledger.HasHost, s.host_eq hformed.opened, Engine.hosts, Option.isSome_map] at hthere
        exact hst.inputs hthere
      cases node with
      | leaf info host source params modulators => exact hown (by simp [Node.ownHosts])
      | envelope info host attack release => exact hown (by simp [Node.ownHosts])
      | series info head tail =>
          exact ih head List.mem_cons_self (hformed.parts head List.mem_cons_self).1
      | parallel info input output branches => rfl
      | wrapped info inner others =>
          exact ih inner List.mem_cons_self (hformed.parts inner List.mem_cons_self).1

namespace Session

-- A composition of nodes of a session makes the connections that it consists of, one after the other, and
-- takes nothing back. If one of them is refused, be it for its contexts or by its host, the composition
-- fails for that, and those before it have been made: the nodes that they lead from count as connected
-- from then on, and no others that did not.
theorem refused_composition (rate : Float) (commands : List Command) (composition : Composition)
    (hcontext : composition.context < (run rate commands).studio.engines.size)
    (hknown : ∀ node ∈ composition.nodes, (run rate commands).studio.node? node.id = some node) :
    let s := (run rate commands).studio
    let leads := composition.leads s
    Ends composition.act s (fun _ t => (∀ lead ∈ leads, lead.Taken t) ∧ Tied s leads t)
      fun e t => Halted s leads e t := by
  intro s leads
  have hsound : s.ledger.Sound 0 := (lawful_run rate commands).sound
  have hthere (node : Node) (hnode : node ∈ composition.nodes) : s.ledger.Knows node :=
    (Studio.offers_of_node hsound (hknown node hnode)).1.known
  have hleads := composition.leads_act hcontext
    (fun node hnode => (hsound.formed (hthere node hnode)).opened)
    fun node hnode _ hst => Studio.inputs_lasting hsound hst (hthere node hnode)
  exact Ends.mono hleads (fun _ _ ht => ⟨ht.1, ht.2.1⟩) fun _ _ h => h

-- A tone, whose output is to come back to its input.
def howl : List Command := [.make 0 (.oscillator .sine (.fixed 440) none)]

theorem howl_halted : ∃ tone e t, (run 44100 howl).studio.node? 0 = some tone ∧
    Node.feedback 0.5 tone (run 44100 howl).studio = .error e t ∧
    Halted (run 44100 howl).studio
      ((Composition.feedback 0.5 tone).leads (run 44100 howl).studio) e t := by
  have hsome : ((run 44100 howl).studio.node? 0).isSome = true := by decide +kernel
  obtain ⟨tone, htone⟩ := Option.isSome_iff_exists.1 hsome
  have hfacts : ∀ tone ∈ (run 44100 howl).studio.node? 0, tone.id = 0 ∧
      tone.context < (run 44100 howl).studio.engines.size ∧
      (Node.feedback 0.5 tone).succeeds (run 44100 howl).studio = false := by decide +kernel
  obtain ⟨hid, hcontext, hfails⟩ := hfacts tone htone
  have hknown : ∀ node ∈ (Composition.feedback 0.5 tone).nodes,
      (run 44100 howl).studio.node? node.id = some node := by
    simpa [Composition.nodes, hid] using htone
  obtain ⟨e, hact⟩ := error_of_not_succeeds hfails
  have hends := refused_composition 44100 howl (.feedback 0.5 tone) hcontext hknown
  exact ⟨tone, e, _, htone, hact, ends_of_error hact hends⟩

-- The tone takes no input. By the time that this shows, it has been connected to the gain that was to
-- lead back to it.
theorem howl_connected : ∃ tone ∈ (run 44100 howl).studio.node? 0,
    (Node.feedback 0.5 tone).succeeds (run 44100 howl).studio = false ∧
    (run 44100 howl).studio.connected tone.id = false ∧
    ((run 44100 howl).studio.engine 0).connections tone.outputHost = [] ∧
    ((Node.feedback 0.5 tone).after (run 44100 howl).studio).connected tone.id = true ∧
    (((Node.feedback 0.5 tone).after (run 44100 howl).studio).engine 0).connections tone.outputHost =
      [.node 2] := by
  decide +kernel

end Session

end Patchbay
