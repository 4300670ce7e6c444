import Patchbay.Proofs.Lifetime.Steps

namespace Patchbay

open Act

section Outcome

variable {α β : Type} {s t : Studio}

-- What an act gives, or how it fails.
def Act.outcome (act : Act α) (studio : Studio) : Except Error α :=
  match act studio with
  | .ok a _ => .ok a
  | .error e _ => .error e

theorem Act.catch_of_ok {act : Act α} {handle : Error → Act α} {a : α} (h : act s = .ok a t) :
    (tryCatch act handle) s = .ok a t := by
  change EStateM.tryCatch act handle s = .ok a t
  rw [EStateM.tryCatch, h]

theorem Act.catch_of_error {act : Act α} {handle : Error → Act α} {e : Error}
    (h : act s = .error e t) : (tryCatch act handle) s = handle e t := by
  change EStateM.tryCatch act handle s = handle e t
  rw [EStateM.tryCatch, h]
  rfl

theorem Act.host_of_ok {context : ContextId} {call : Engine → Except HostFault Engine}
    {engine : Engine} (h : call (s.engine context) = .ok engine) : Act.host context call s =
      .ok () { s with engines := s.engines.modify context fun _ => engine } := by
  change (ofExcept .host (call (s.engine context)) >>= setEngine context) s = _
  rw [h]
  rfl

theorem Act.host_of_error {context : ContextId} {call : Engine → Except HostFault Engine}
    {fault : HostFault} (h : call (s.engine context) = .error fault) :
    Act.host context call s = .error (.host fault) s := by
  change (ofExcept .host (call (s.engine context)) >>= setEngine context) s = _
  rw [h]
  rfl

end Outcome

-- The host nodes that a call names.
def HostCall.names : HostCall → List HostId
  | .connect source (.node id) | .connect source (.param id _) => [source, id]
  | .create id _ | .disconnect id | .start id _ | .stop id _ | .setParam id _ _ | .setBuffer id
  | .schedule id _ _ => [id]

-- The calls on the log that name a host node, in order.
def Engine.callsOf (engine : Engine) (host : HostId) : List HostCall :=
  engine.calls.toList.filter (host ∈ ·.names)

-- Nothing that its observers do in answer is due.
def Instrument.Passive (inst : Instrument) : Prop :=
  ∀ topic, ∀ observer ∈ inst.observers topic, observer.react.1 = none

-- The same, but for the order in which calls of different host nodes, notices and warnings came.
structure Studio.Alike (s t : Studio) : Prop where
  nodes : t.nodes = s.nodes
  instruments : t.instruments = s.instruments
  contexts : t.engines.size = s.engines.size
  rate : ∀ c, (t.engine c).rate = (s.engine c).rate
  now : ∀ c, (t.engine c).now = (s.engine c).now
  hosts : ∀ c, (t.engine c).nodes = (s.engine c).nodes
  calls : ∀ c host, (t.engine c).callsOf host = (s.engine c).callsOf host
  builders : t.builders = s.builders
  asked : t.asked = s.asked
  heard : t.heard.toList.Perm s.heard.toList
  warnings : t.warnings.Perm s.warnings

-- Some nodes, host nodes and instruments: all that an act may look at and touch, but for the clocks.
structure Zone where
  nodes : NodeId → Prop
  hosts : ContextId → HostId → Prop
  instruments : InstrumentId → Prop

-- Two lists have the same added to them at the end, of the kind that `P` admits.
def Adds {α : Type} (P : α → Prop) (l l' m m' : List α) : Prop :=
  ∃ more, m = l ++ more ∧ m' = l' ++ more ∧ ∀ a ∈ more, P a

namespace Adds

variable {α : Type} {P : α → Prop} {l l' m m' n n' : List α}

theorem none : Adds P l l' l l' := ⟨[], by simp, by simp, by simp⟩

theorem one {a : α} (h : P a) : Adds P l l' (l ++ [a]) (l' ++ [a]) := ⟨[a], rfl, rfl, by simpa⟩

theorem trans (h : Adds P l l' m m') (h' : Adds P m m' n n') : Adds P l l' n n' := by
  obtain ⟨more, rfl, rfl, hP⟩ := h
  obtain ⟨rest, rfl, rfl, hP'⟩ := h'
  refine ⟨more ++ rest, by simp, by simp, fun a ha => ?_⟩
  exact (List.mem_append.1 ha).elim (hP a) (hP' a)

-- What two ways to go on from `l` add is the same the other way round.
theorem cross {Q : α → Prop} {k k' n n' : List α} (h : Adds P l k' k n') (h' : Adds Q l k k' n) :
    ∃ more rest, n = l ++ more ++ rest ∧ n' = l ++ rest ++ more ∧ (∀ a ∈ more, P a) ∧
      ∀ a ∈ rest, Q a := by
  obtain ⟨more, rfl, rfl, hP⟩ := h
  obtain ⟨rest, rfl, rfl, hQ⟩ := h'
  exact ⟨more, rest, rfl, rfl, hP, hQ⟩

theorem perm {Q : α → Prop} {k k' n n' : List α} (h : Adds P l k' k n') (h' : Adds Q l k k' n) :
    n'.Perm n := by
  obtain ⟨more, rest, rfl, rfl, -, -⟩ := h.cross h'
  rw [List.append_assoc, List.append_assoc]
  exact .append_left l List.perm_append_comm

end Adds

namespace Zone

-- The studios are the same in the zone, where nobody reacts to anything, and have the same clocks.
structure Agree (Z : Zone) (s s' : Studio) : Prop where
  contexts : s'.engines.size = s.engines.size
  now : ∀ c, s'.now c = s.now c
  nodes : ∀ id, Z.nodes id → s'.nodes[id]? = s.nodes[id]?
  hosts : ∀ c h, Z.hosts c h → (s'.engine c).nodes[h]? = (s.engine c).nodes[h]?
  instruments : ∀ k, Z.instruments k → s'.instruments[k]? = s.instruments[k]?
  passive : ∀ k, Z.instruments k → (s.instrument k).Passive

-- From one to the other, nothing outside of the zone changes.
structure Spares (Z : Zone) (s t : Studio) : Prop where
  contexts : t.engines.size = s.engines.size
  rate : ∀ c, (t.engine c).rate = (s.engine c).rate
  now : ∀ c, (t.engine c).now = (s.engine c).now
  nodes : ∀ id, ¬Z.nodes id → t.nodes[id]? = s.nodes[id]?
  hosts : ∀ c h, ¬Z.hosts c h → (t.engine c).nodes[h]? = (s.engine c).nodes[h]?
  instruments : ∀ k, ¬Z.instruments k → t.instruments[k]? = s.instruments[k]?
  builders : t.builders = s.builders
  asked : t.asked = s.asked

instance {Z : Zone} : IsPreorder Studio Z.Spares where
  refl _ := ⟨rfl, fun _ => rfl, fun _ => rfl, fun _ _ => rfl, fun _ _ _ => rfl, fun _ _ => rfl, rfl,
    rfl⟩
  trans _ _ _ h h' := ⟨h'.contexts.trans h.contexts, fun c => (h'.rate c).trans (h.rate c),
    fun c => (h'.now c).trans (h.now c), fun id hid => (h'.nodes id hid).trans (h.nodes id hid),
    fun c host hhost => (h'.hosts c host hhost).trans (h.hosts c host hhost),
    fun k hk => (h'.instruments k hk).trans (h.instruments k hk), h'.builders.trans h.builders,
    h'.asked.trans h.asked⟩

-- Two studios go on alike: what changes does so in the zone, where they agree afterwards, and they
-- record the same.
structure Pace (Z : Zone) (s s' t t' : Studio) : Prop where
  spares : Z.Spares s t
  spares' : Z.Spares s' t'
  agree : Z.Agree t t'
  calls : ∀ c, Adds (fun call : HostCall => ∀ host ∈ call.names, Z.hosts c host)
    (s.engine c).calls.toList (s'.engine c).calls.toList
    (t.engine c).calls.toList (t'.engine c).calls.toList
  heard : Adds (fun _ => True) s.heard.toList s'.heard.toList t.heard.toList t'.heard.toList
  warnings : Adds (fun _ => True) s.warnings s'.warnings t.warnings t'.warnings

variable {Z : Zone} {s s' t t' u u' : Studio}

theorem Agree.state (h : Z.Agree s s') {node : Node} (hnode : Z.nodes node.id) :
    node.state s' = node.state s := by rw [Node.state, h.nodes _ hnode, Node.state]

theorem Agree.instrument (h : Z.Agree s s') {k : InstrumentId} (hk : Z.instruments k) :
    s'.instrument k = s.instrument k := by
  rw [Studio.instrument, h.instruments k hk, Studio.instrument]

namespace Pace

theorem stay (h : Z.Agree s s') : Z.Pace s s' s s' :=
  ⟨refl_of Z.Spares s, refl_of Z.Spares s', h, fun _ => .none, .none, .none⟩

theorem trans (h : Z.Pace s s' t t') (h' : Z.Pace t t' u u') : Z.Pace s s' u u' where
  spares := trans_of Z.Spares h.spares h'.spares
  spares' := trans_of Z.Spares h.spares' h'.spares'
  agree := h'.agree
  calls c := (h.calls c).trans (h'.calls c)
  heard := h.heard.trans h'.heard
  warnings := h.warnings.trans h'.warnings

end Pace

section Change

theorem spares_node {id : NodeId} (hid : Z.nodes id) (f : NodeState → NodeState) :
    Z.Spares s { s with nodes := s.nodes.modify id f } := by
  refine { refl_of Z.Spares s with nodes := fun other hother => ?_ }
  have hne : id ≠ other := fun h => hother (h ▸ hid)
  rw [Array.getElem?_modify, if_neg hne]

theorem Pace.node {id : NodeId} (hid : Z.nodes id) (f : NodeState → NodeState) (h : Z.Agree s s') :
    Z.Pace s s' { s with nodes := s.nodes.modify id f } { s' with nodes := s'.nodes.modify id f } := by
  refine { Pace.stay h with spares := spares_node hid f, spares' := spares_node hid f, agree := ?_ }
  refine { h with nodes := fun other hother => ?_ }
  rw [Array.getElem?_modify, Array.getElem?_modify, h.nodes other hother]

theorem spares_instrument {k : InstrumentId} (hk : Z.instruments k) (f : Instrument → Instrument) :
    Z.Spares s { s with instruments := s.instruments.modify k f } := by
  refine { refl_of Z.Spares s with instruments := fun j hj => ?_ }
  have hne : k ≠ j := fun h => hj (h ▸ hk)
  rw [Array.getElem?_modify, if_neg hne]

theorem Pace.instrument {k : InstrumentId} (hk : Z.instruments k) {f : Instrument → Instrument}
    (hf : ∀ inst : Instrument, inst.Passive → (f inst).Passive) (h : Z.Agree s s') :
    Z.Pace s s' { s with instruments := s.instruments.modify k f }
      { s' with instruments := s'.instruments.modify k f } := by
  refine { Pace.stay h with
    spares := spares_instrument hk f, spares' := spares_instrument hk f, agree := ?_ }
  refine { h with instruments := fun j hj => ?_, passive := fun j hj => ?_ }
  · rw [Array.getElem?_modify, Array.getElem?_modify, h.instruments j hj]
  · rw [s.instrument_modify]
    split
    · exact hf _ (h.passive j hj)
    · exact h.passive j hj

theorem Pace.hear (notice : Notice) (h : Z.Agree s s') : Z.Pace s s'
    { s with heard := s.heard.push notice } { s' with heard := s'.heard.push notice } where
  spares := { refl_of Z.Spares s with }
  spares' := { refl_of Z.Spares s' with }
  agree := { h with }
  calls _ := .none
  heard := by
    rw [Array.toList_push, Array.toList_push]
    exact .one trivial
  warnings := .none

theorem Pace.warn (warning : Warning) (h : Z.Agree s s') : Z.Pace s s'
    { s with warnings := s.warnings ++ [warning] }
    { s' with warnings := s'.warnings ++ [warning] } where
  spares := { refl_of Z.Spares s with }
  spares' := { refl_of Z.Spares s' with }
  agree := { h with }
  calls _ := .none
  heard := .none
  warnings := .one trivial

end Change

end Zone

-- The call looks at the host node and at no other, and that is the only one that it changes and that
-- the log names for it.
def Engine.Confined (host : HostId) (call : Engine → Except HostFault Engine) : Prop :=
  ∃ (verdict : Option HostNode → Except HostFault Unit) (f : HostNode → HostNode) (entry : HostCall),
    entry.names = [host] ∧ ∀ engine : Engine, call engine =
      (verdict engine.nodes[host]?).map fun _ => (engine.change host f).record entry

namespace Engine

variable {host : HostId}

theorem confined_disconnect : Confined host (·.disconnect host) := by
  refine ⟨fun node => node.elim (.error (.unknownNode host)) fun _ => .ok (),
    fun node => { node with disconnected := true }, .disconnect host, rfl, fun engine => ?_⟩
  change engine.disconnect host = _
  rw [disconnect, find]
  cases engine.nodes[host]? <;> rfl

theorem confined_start (time : Float) : Confined host (·.start host time) := by
  refine ⟨fun node => node.elim (.error (.unknownNode host)) fun node =>
      if !node.isSource then .error (.cannotStart node.name host)
      else if node.startedAt.isSome then .error (.startedAlready node.name host) else .ok (),
    fun node => { node with startedAt := some time }, .start host time, rfl, fun engine => ?_⟩
  change engine.start host time = _
  rw [start, find]
  cases engine.nodes[host]? with
  | none => rfl
  | some node =>
      change (if !node.isSource then _ else if node.startedAt.isSome then _ else _) = _
      dsimp only [Option.elim]
      split
      · rfl
      · split <;> rfl

theorem confined_stop (time : Float) : Confined host (·.stop host time) := by
  refine ⟨fun node => node.elim (.error (.unknownNode host)) fun node =>
      if node.startedAt.isNone then .error (.notStarted node.name host) else .ok (),
    fun node => { node with stopAt := some time }, .stop host time, rfl, fun engine => ?_⟩
  change engine.stop host time = _
  rw [stop, find]
  cases engine.nodes[host]? with
  | none => rfl
  | some node =>
      change (if node.startedAt.isNone then _ else _) = _
      dsimp only [Option.elim]
      split <;> rfl

theorem confined_schedule (param : Param) (event : Automation) :
    Confined host (·.schedule host param event) := by
  refine ⟨fun node => node.elim (.error (.unknownNode host)) fun node =>
      if !node.hasParam param then .error (.noParam host param) else .ok (),
    fun node => node, .schedule host param event, rfl, fun engine => ?_⟩
  have hsame : engine.change host (fun node => node) = engine := by
    refine congrArg (fun nodes => { engine with nodes }) (Array.ext_getElem? fun i => ?_)
    simp [Array.getElem?_modify]
  change engine.schedule host param event = _
  rw [schedule, find, hsame]
  cases engine.nodes[host]? with
  | none => rfl
  | some node =>
      change (if !node.hasParam param then _ else _) = _
      dsimp only [Option.elim]
      split <;> rfl

end Engine

namespace Zone

variable {Z : Zone} {s s' t t' : Studio} {context : ContextId} {own : HostId}
  {f : HostNode → HostNode} {entry : HostCall}

theorem spares_host (hhost : Z.hosts context own) : Z.Spares s { s with
    engines := s.engines.modify context fun _ =>
      ((s.engine context).change own f).record entry } := by
  have hengine := fun c => s.engine_setEngine context c (((s.engine context).change own f).record entry)
  refine { refl_of Z.Spares s with
    contexts := Array.size_modify, rate := fun c => ?_, now := fun c => ?_, hosts := fun c h hh => ?_ }
  case refine_1 | refine_2 =>
      rw [hengine]
      split
      case isTrue hc => rw [← hc.1]; rfl
      case isFalse => rfl
  case refine_3 =>
      rw [hengine]
      split
      case isTrue hc =>
          obtain ⟨rfl, -⟩ := hc
          have hne : own ≠ h := fun heq => hh (heq ▸ hhost)
          change ((s.engine context).nodes.modify own f)[h]? = _
          rw [Array.getElem?_modify, if_neg hne]
      case isFalse => rfl

theorem Pace.host (hhost : Z.hosts context own) (hnames : entry.names = [own])
    (h : Z.Agree s s') : Z.Pace s s'
      { s with engines := s.engines.modify context fun _ =>
        ((s.engine context).change own f).record entry }
      { s' with engines := s'.engines.modify context fun _ =>
        ((s'.engine context).change own f).record entry } := by
  have hengine (s : Studio) := fun c =>
    s.engine_setEngine context c (((s.engine context).change own f).record entry)
  refine { Pace.stay h with
    spares := spares_host hhost, spares' := spares_host hhost, agree := ?_, calls := fun c => ?_ }
  · refine { h with contexts := ?_, now := fun c => ?_, hosts := fun c other hother => ?_ }
    · simpa using h.contexts
    · exact ((spares_host hhost).now c).trans ((h.now c).trans ((spares_host hhost).now c).symm)
    · rw [hengine, hengine, h.contexts]
      split
      case isTrue hc =>
          obtain ⟨rfl, -⟩ := hc
          change ((s'.engine context).nodes.modify own f)[other]? =
            ((s.engine context).nodes.modify own f)[other]?
          rw [Array.getElem?_modify, Array.getElem?_modify, h.hosts context other hother]
      case isFalse => exact h.hosts c other hother
  · rw [hengine, hengine, h.contexts]
    split
    case isTrue hc =>
        obtain ⟨rfl, -⟩ := hc
        change Adds _ _ _ ((s.engine context).calls.push entry).toList
          ((s'.engine context).calls.push entry).toList
        rw [Array.toList_push, Array.toList_push]
        refine .one fun other hother => ?_
        rw [hnames, List.mem_singleton] at hother
        exact hother ▸ hhost
    case isFalse => exact .none

-- One act in the one studio and another in the other, if the two studios agree: the outcomes are the
-- same, and the studios have gone on alike.
def Twin (Z : Zone) {α : Type} (act act' : Act α) (s s' : Studio) : Prop :=
  Z.Agree s s' →
    (∃ a t t', act s = .ok a t ∧ act' s' = .ok a t' ∧ Z.Pace s s' t t') ∨
    ∃ e t t', act s = .error e t ∧ act' s' = .error e t' ∧ Z.Pace s s' t t'

section Twin

variable {α β : Type} {act act' : Act α}

theorem twin_pure (a : α) : Z.Twin (pure a) (pure a) s s' :=
  fun h => .inl ⟨a, s, s', rfl, rfl, .stay h⟩

theorem twin_throw (e : Error) : Z.Twin (throw e : Act α) (throw e) s s' :=
  fun h => .inr ⟨e, s, s', rfl, rfl, .stay h⟩

theorem twin_modify {f f' : Studio → Studio} (h : Z.Agree s s' → Z.Pace s s' (f s) (f' s')) :
    Z.Twin (modify f) (modify f') s s' :=
  fun hs => .inl ⟨⟨⟩, f s, f' s', rfl, rfl, h hs⟩

theorem twin_bind {act act' : Act β} {next next' : β → Act α} (h : Z.Twin act act' s s')
    (hnext : ∀ b t t', act s = .ok b t → act' s' = .ok b t' → Z.Twin (next b) (next' b) t t') :
    Z.Twin (act >>= next) (act' >>= next') s s' := by
  intro hs
  obtain ⟨b, t, t', hact, hact', hst⟩ | ⟨e, t, t', hact, hact', hst⟩ := h hs
  · rw [run_bind hact, run_bind hact']
    obtain ⟨a, u, u', hok, hok', htu⟩ | ⟨e, u, u', hfail, hfail', htu⟩ :=
      hnext b t t' hact hact' hst.agree
    · exact .inl ⟨a, u, u', hok, hok', hst.trans htu⟩
    · exact .inr ⟨e, u, u', hfail, hfail', hst.trans htu⟩
  · exact .inr ⟨e, t, t', bind_of_error hact, bind_of_error hact', hst⟩

theorem twin_catch {handle handle' : Error → Act α} (h : Z.Twin act act' s s')
    (hhandle : ∀ e t t', Z.Twin (handle e) (handle' e) t t') :
    Z.Twin (tryCatch act handle) (tryCatch act' handle') s s' := by
  intro hs
  obtain ⟨a, t, t', hact, hact', hst⟩ | ⟨e, t, t', hact, hact', hst⟩ := h hs
  · exact .inl ⟨a, t, t', catch_of_ok hact, catch_of_ok hact', hst⟩
  · rw [catch_of_error hact, catch_of_error hact']
    obtain ⟨a, u, u', hok, hok', htu⟩ | ⟨e', u, u', hfail, hfail', htu⟩ :=
      hhandle e t t' hst.agree
    · exact .inl ⟨a, u, u', hok, hok', hst.trans htu⟩
    · exact .inr ⟨e', u, u', hfail, hfail', hst.trans htu⟩

theorem twin_forM {act act' : β → Act PUnit} {items : List β}
    (h : ∀ b ∈ items, ∀ t t', Z.Twin (act b) (act' b) t t') :
    Z.Twin (items.forM act) (items.forM act') s s' := by
  induction items generalizing s s' with
  | nil => exact twin_pure _
  | cons b rest ih =>
      refine twin_bind (h b List.mem_cons_self s s') fun _ t t' _ _ => ?_
      exact ih fun other hother => h other (List.mem_cons_of_mem b hother)

-- What leaves both studios as they are only gives its result.
theorem twin_skip {act act' : Act β} {next next' : β → Act α} {b : β} (hact : act s = .ok b s)
    (hact' : Z.Agree s s' → act' s' = .ok b s') (hnext : Z.Twin (next b) (next' b) s s') :
    Z.Twin (act >>= next) (act' >>= next') s s' := by
  intro hs
  rw [run_bind hact, run_bind (hact' hs)]
  exact hnext hs

-- Whatever runs as another act does in either studio.
theorem Twin.of_eq {first first' : Act α} (h : Z.Twin act act' s s') (hfirst : first s = act s)
    (hfirst' : Z.Agree s s' → first' s' = act' s') : Z.Twin first first' s s' := by
  intro hs
  rw [hfirst, hfirst' hs]
  exact h hs

theorem twin_now {next next' : Float → Act α}
    (h : Z.Twin (next (s.now context)) (next' (s.now context)) s s') :
    Z.Twin (now context >>= next) (now context >>= next') s s' := by
  refine twin_skip rfl (fun hs => ?_) h
  rw [← hs.now context]
  rfl

theorem twin_instrument {k : InstrumentId} {next next' : Instrument → Act α} (hk : Z.instruments k)
    (h : (s.instrument k).Passive → Z.Twin (next (s.instrument k)) (next' (s.instrument k)) s s') :
    Z.Twin (instrument k >>= next) (instrument k >>= next') s s' := by
  intro hs
  refine twin_skip (b := s.instrument k) rfl (fun _ => ?_) (h (hs.passive k hk)) hs
  rw [← hs.instrument hk]
  rfl

theorem twin_read {next next' : Studio → Act α} (h : Z.Twin (next s) (next' s') s s') :
    Z.Twin (get >>= next) (get >>= next') s s' := h

theorem twin_ite {p p' : Prop} [Decidable p] [Decidable p'] {yes yes' no no' : Act α}
    (hp : Z.Agree s s' → (p' ↔ p)) (hyes : Z.Twin yes yes' s s') (hno : Z.Twin no no' s s') :
    Z.Twin (if p then yes else no) (if p' then yes' else no') s s' := by
  intro hs
  have hp := hp hs
  by_cases h : p
  · rw [if_pos h, if_pos (hp.2 h)]
    exact hyes hs
  · rw [if_neg h, if_neg (h ∘ hp.1)]
    exact hno hs

theorem twin_changeNode {id : NodeId} (hid : Z.nodes id) (f : NodeState → NodeState) :
    Z.Twin (changeNode id f) (changeNode id f) s s' :=
  twin_modify (Pace.node hid f)

theorem twin_changeInstrument {k : InstrumentId} (hk : Z.instruments k) {f : Instrument → Instrument}
    (hf : ∀ inst : Instrument, inst.Passive → (f inst).Passive) :
    Z.Twin (changeInstrument k f) (changeInstrument k f) s s' :=
  twin_modify (Pace.instrument hk hf)

theorem twin_hear (notice : Notice) : Z.Twin (hear notice) (hear notice) s s' :=
  twin_modify (Pace.hear notice)

theorem twin_warn (warning : Warning) : Z.Twin (warn warning) (warn warning) s s' :=
  twin_modify (Pace.warn warning)

theorem twin_host {call : Engine → Except HostFault Engine} (hcall : Engine.Confined own call)
    (hhost : Z.hosts context own) :
    Z.Twin (Act.host context call) (Act.host context call) s s' := by
  intro hs
  obtain ⟨verdict, f, entry, hnames, hcall⟩ := hcall
  have hrun := hcall (s.engine context)
  have hrun' := hcall (s'.engine context)
  rw [hs.hosts context own hhost] at hrun'
  cases hverdict : verdict (s.engine context).nodes[own]? with
  | ok =>
      rw [hverdict] at hrun hrun'
      exact .inl ⟨(), _, _, host_of_ok hrun, host_of_ok hrun', .host hhost hnames hs⟩
  | error fault =>
      rw [hverdict] at hrun hrun'
      exact .inr ⟨_, s, s', host_of_error hrun, host_of_error hrun', .stay hs⟩

end Twin

-- They have nothing in common.
structure Apart (Y Z : Zone) : Prop where
  nodes : ∀ id, Y.nodes id → ¬Z.nodes id
  hosts : ∀ c h, Y.hosts c h → ¬Z.hosts c h
  instruments : ∀ k, Y.instruments k → ¬Z.instruments k

theorem Twin.settle {α : Type} {act act' : Act α} (h : Z.Twin act act' s s') (hs : Z.Agree s s') :
    act'.outcome s' = act.outcome s ∧ Z.Pace s s' (act.after s) (act'.after s') := by
  obtain ⟨a, t, t', hact, hact', hst⟩ | ⟨e, t, t', hact, hact', hst⟩ := h hs
  all_goals
    unfold outcome after
    rw [hact, hact']
    exact ⟨rfl, hst⟩

-- A place is in one of the two zones, or in none.
theorem meet {α : Type} {p q : Prop} {x a b u v : α} (hpq : p → ¬q) (ha : ¬p → a = x) (hb : ¬q → b = x)
    (hu : ¬q → u = a) (hu' : q → u = b) (hv : ¬p → v = b) (hv' : p → v = a) : v = u := by
  by_cases hp : p
  · rw [hv' hp, hu (hpq hp)]
  · by_cases hq : q
    · rw [hv hp, hu' hq]
    · rw [hv hp, hb hq, hu hq, ha hp]

theorem square {α : Type} {x a b u v : α} (ha : a = x) (hb : b = x) (hu : u = a) (hv : v = b) :
    v = u := by rw [hv, hb, hu, ha]

theorem Apart.symm {Y : Zone} (h : Y.Apart Z) : Z.Apart Y where
  nodes id hid hid' := h.nodes id hid' hid
  hosts c host hhost hhost' := h.hosts c host hhost' hhost
  instruments k hk hk' := h.instruments k hk' hk

namespace Apart

variable {Y : Zone} {a b u v : Studio} (h : Y.Apart Z)
include h

-- What changes in the one zone does not show in the other.
theorem agree (hst : Z.Spares s t) (hpassive : ∀ k, Y.instruments k → (s.instrument k).Passive) :
    Y.Agree s t where
  contexts := hst.contexts
  now := hst.now
  nodes id hid := hst.nodes id (h.nodes id hid)
  hosts c host hhost := hst.hosts c host (h.hosts c host hhost)
  instruments k hk := hst.instruments k (h.instruments k hk)
  passive := hpassive

-- From one studio, one act leads to `a` and then the other to `u`; the other way round it is `b` and
-- then `v`.
theorem alike (hY : Y.Pace s b a v) (hZ : Z.Pace s a b u) : u.Alike v where
  nodes := Array.ext_getElem? fun id => meet (h.nodes id) (hY.spares.nodes id) (hZ.spares.nodes id)
    (hZ.spares'.nodes id) (hZ.agree.nodes id) (hY.spares'.nodes id) (hY.agree.nodes id)
  instruments := Array.ext_getElem? fun k => meet (h.instruments k) (hY.spares.instruments k)
    (hZ.spares.instruments k) (hZ.spares'.instruments k) (hZ.agree.instruments k)
    (hY.spares'.instruments k) (hY.agree.instruments k)
  hosts c := Array.ext_getElem? fun host => meet (h.hosts c host) (hY.spares.hosts c host)
    (hZ.spares.hosts c host) (hZ.spares'.hosts c host) (hZ.agree.hosts c host)
    (hY.spares'.hosts c host) (hY.agree.hosts c host)
  contexts := square hY.spares.contexts hZ.spares.contexts hZ.spares'.contexts hY.spares'.contexts
  rate c := square (hY.spares.rate c) (hZ.spares.rate c) (hZ.spares'.rate c) (hY.spares'.rate c)
  now c := square (hY.spares.now c) (hZ.spares.now c) (hZ.spares'.now c) (hY.spares'.now c)
  calls c host := by
    obtain ⟨more, rest, hu, hv, hmore, hrest⟩ := (hY.calls c).cross (hZ.calls c)
    rw [Engine.callsOf, Engine.callsOf, hu, hv]
    simp only [List.filter_append, List.append_assoc]
    -- The host node is in one of the two zones at most.
    by_cases hhost : Y.hosts c host
    · have hnone : rest.filter (host ∈ ·.names) = [] := List.filter_eq_nil_iff.2 fun call hcall hin =>
        h.hosts c host hhost (hrest call hcall host (of_decide_eq_true hin))
      rw [hnone, List.nil_append, List.append_nil]
    · have hnone : more.filter (host ∈ ·.names) = [] := List.filter_eq_nil_iff.2 fun call hcall hin =>
        hhost (hmore call hcall host (of_decide_eq_true hin))
      rw [hnone, List.nil_append, List.append_nil]
  builders := square hY.spares.builders hZ.spares.builders hZ.spares'.builders hY.spares'.builders
  asked := square hY.spares.asked hZ.spares.asked hZ.spares'.asked hY.spares'.asked
  heard := hY.heard.perm hZ.heard
  warnings := hY.warnings.perm hZ.warnings

end Apart

-- Acts that are confined to zones that are apart come to the same in either order.
theorem Apart.commute {Y : Zone} {α β : Type} {act : Act α} {other : Act β} (h : Y.Apart Z)
    (hact : ∀ t, Y.Twin act act s t) (hother : ∀ t, Z.Twin other other s t)
    (hY : ∀ k, Y.instruments k → (s.instrument k).Passive)
    (hZ : ∀ k, Z.instruments k → (s.instrument k).Passive) :
    act.outcome (other.after s) = act.outcome s ∧ other.outcome (act.after s) = other.outcome s ∧
      (other.after (act.after s)).Alike (act.after (other.after s)) := by
  have hself {Z : Zone} (hpassive : ∀ k, Z.instruments k → (s.instrument k).Passive) : Z.Agree s s :=
    ⟨rfl, fun _ => rfl, fun _ _ => rfl, fun _ _ _ => rfl, fun _ _ => rfl, hpassive⟩
  have hafter := ((hact s).settle (hself hY)).2.spares
  have hafter' := ((hother s).settle (hself hZ)).2.spares
  obtain ⟨houtcome, hpace⟩ := (hact _).settle (h.agree hafter' hY)
  obtain ⟨houtcome', hpace'⟩ := (hother _).settle (h.symm.agree hafter hZ)
  exact ⟨houtcome, houtcome', h.alike hpace hpace'⟩

end Zone

end Patchbay
