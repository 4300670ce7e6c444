import Patchbay.Proofs.Ledger.Moves

namespace Patchbay

def Listener.isWhole (whole : NodeId) : Listener → Bool
  | .whole other => other == whole
  | .voice _ _ | .caller _ _ => false

-- It has ended or is about to.
def Moment.Finishing (m : Moment) (id : NodeId) : Prop :=
  (m.ledger.fate id).ended = true ∨ .finish id ∈ m.owed

structure Join (m : Moment) : Prop where
  silent : ∀ id, (m.ledger.fate id).ended = true → (m.ledger.fate id).listeners = []
  told : ∀ id listener, .tell id listener ∈ m.owed → (m.ledger.fate id).ended = true
  known : ∀ id, m.Finishing id → ∃ node, (m.ledger.fate id).node = some node
  -- A whole hears of a member as often as it waits for it.
  waits : ∀ id whole, (m.pending id).countP (·.isWhole whole) =
    (m.ledger.fate whole).awaiting.count id
  awaited : ∀ whole id, id ∈ (m.ledger.fate whole).awaiting →
    ∃ node, (m.ledger.fate whole).node = some node ∧ id ∈ node.awaited
  missed : ∀ whole node id, (m.ledger.fate whole).node = some node → id ∈ node.awaited →
    id ∉ (m.ledger.fate whole).awaiting → (m.ledger.fate id).ended = true
  whole : ∀ id node, (m.ledger.fate id).node = some node → node.IsWhole →
    (m.Finishing id ↔ node.awaited ≠ [] ∧ (m.ledger.fate id).awaiting = [])
  source : ∀ id node host, (m.ledger.fate id).node = some node → node.source? = some host →
    (m.Finishing id ↔ m.ledger.HostEnded node.context host)
  -- What is neither has no end.
  still : ∀ id node, (m.ledger.fate id).node = some node → ¬node.IsWhole → node.source? = none →
    ¬m.Finishing id
  watched : ∀ id node host, (m.ledger.fate id).node = some node → node.source? = some host →
    ¬m.ledger.HostEnded node.context host → id ∈ m.ledger.watching node.context host
  watching : ∀ c host id, id ∈ m.ledger.watching c host →
    ∃ node, (m.ledger.fate id).node = some node ∧ node.context = c ∧ node.source? = some host

theorem Node.not_isWhole_of_source {node : Node} {host : HostId} (h : node.source? = some host) :
    ¬node.IsWhole := by
  cases node <;> simp_all [source?, IsWhole]

theorem Node.isWhole_of_awaited {node : Node} {id : NodeId} (h : id ∈ node.awaited) :
    node.IsWhole := by
  by_contra hwhole
  rw [awaited_eq_nil hwhole] at h
  exact List.not_mem_nil h

namespace Join

variable {m m' : Moment}

-- What makes no node, ends none of itself and tells no whole.
theorem frame (h : Join m)
    (hnode : ∀ id, (m'.ledger.fate id).node = (m.ledger.fate id).node)
    (hended : ∀ id, (m.ledger.fate id).ended = true → (m'.ledger.fate id).ended = true)
    (hawaiting : ∀ id, (m'.ledger.fate id).awaiting = (m.ledger.fate id).awaiting)
    (hsilent : ∀ id, (m'.ledger.fate id).ended = true → (m'.ledger.fate id).listeners = [])
    (htold : ∀ id listener, .tell id listener ∈ m'.owed → (m'.ledger.fate id).ended = true)
    (hpending : ∀ id whole, (m'.pending id).countP (·.isWhole whole) =
      (m.pending id).countP (·.isWhole whole))
    (hfinishing : ∀ id, m'.Finishing id ↔ m.Finishing id)
    (hhost : ∀ c host, m'.ledger.HostEnded c host ↔ m.ledger.HostEnded c host)
    (hwatching : ∀ c host, m'.ledger.watching c host = m.ledger.watching c host) : Join m' where
  silent := hsilent
  told := htold
  known id hid := by
    rw [hnode]
    exact h.known id ((hfinishing id).1 hid)
  waits id whole := by
    rw [hpending, hawaiting]
    exact h.waits id whole
  awaited whole id hid := by
    rw [hnode]
    exact h.awaited whole id (hawaiting whole ▸ hid)
  missed whole node id hwhole hid hnot := by
    rw [hnode] at hwhole
    rw [hawaiting] at hnot
    exact hended id (h.missed whole node id hwhole hid hnot)
  whole id node hid hwhole := by
    rw [hfinishing, hawaiting]
    exact h.whole id node (hnode id ▸ hid) hwhole
  source id node host hid hsource := by
    rw [hfinishing, hhost]
    exact h.source id node host (hnode id ▸ hid) hsource
  still id node hid hwhole hsource := by
    rw [hfinishing]
    exact h.still id node (hnode id ▸ hid) hwhole hsource
  watched id node host hid hsource hlive := by
    rw [hwatching]
    exact h.watched id node host (hnode id ▸ hid) hsource (mt (hhost _ _).2 hlive)
  watching c host id hid := by
    rw [hnode]
    exact h.watching c host id (hwatching c host ▸ hid)

-- A debt that neither ends a node nor tells a whole.
def Idle (L : Ledger) : Debt → Prop
  | .finish _ => False
  | .tell id listener => (L.fate id).ended = true ∧ ∀ whole, listener.isWhole whole = false
  | .cut _ | .cutHost _ _ | .announce _ _ => True

variable {L M : Ledger} {D : List Debt} {P Q : Past}

theorem countP_told_idle (id whole : NodeId) {debts : List Debt}
    (hdebts : ∀ debt ∈ debts, Idle L debt) :
    (debts.filterMap (Debt.told? id)).countP (·.isWhole whole) = 0 := by
  rw [List.countP_eq_zero]
  intro listener hlistener
  obtain ⟨debt, hdebt, htold⟩ := List.mem_filterMap.1 hlistener
  have hidle := hdebts debt hdebt
  cases debt with
  | tell other listener' =>
      simp only [Debt.told?] at htold
      split at htold
      · cases htold
        simpa using hidle.2 whole
      · cases htold
  | _ => cases htold

-- Idle debts come and go.
theorem owe (before after : List Debt) (h : Join ⟨L, before ++ D, P⟩)
    (hbefore : ∀ debt ∈ before, Idle L debt) (hafter : ∀ debt ∈ after, Idle L debt) :
    Join ⟨L, after ++ D, Q⟩ := by
  have hfinish {debts : List Debt} (hdebts : ∀ debt ∈ debts, Idle L debt) (id : NodeId) :
      .finish id ∈ debts ++ D ↔ .finish id ∈ D := by
    rw [List.mem_append]
    exact or_iff_right fun hmem => hdebts _ hmem
  have hpending {debts : List Debt} {P : Past} (hdebts : ∀ debt ∈ debts, Idle L debt)
      (id whole : NodeId) : ((Moment.mk L (debts ++ D) P).pending id).countP (·.isWhole whole) =
        ((Moment.mk L D P).pending id).countP (·.isWhole whole) := by
    simp only [Moment.pending, List.filterMap_append, List.countP_append,
      countP_told_idle id whole hdebts, Nat.zero_add]
  refine h.frame (fun _ => rfl) (fun _ hid => hid) (fun _ => rfl) h.silent
    (fun id listener hmem => ?_) (fun id whole => ?_) (fun id => ?_) (fun _ _ => .rfl)
    fun _ _ => rfl
  · rcases List.mem_append.1 hmem with hmem | hmem
    · exact (hafter _ hmem).1
    · exact h.told id listener (List.mem_append_right _ hmem)
  · exact (hpending hafter id whole).trans (hpending hbefore id whole).symm
  · rw [Moment.Finishing, Moment.Finishing, hfinish hafter, hfinish hbefore]

-- Nothing in an entry matters but its node, its end and who waits for it.
theorem of_ledger (h : Join ⟨L, D, P⟩) (hfate : ∀ id, (M.fate id).node = (L.fate id).node ∧
      (M.fate id).ended = (L.fate id).ended ∧ (M.fate id).awaiting = (L.fate id).awaiting ∧
      (M.fate id).listeners = (L.fate id).listeners)
    (hhost : ∀ c host, M.HostEnded c host ↔ L.HostEnded c host)
    (hwatching : ∀ c host, M.watching c host = L.watching c host) : Join ⟨M, D, P⟩ := by
  have hended (id : NodeId) : (M.fate id).ended = (L.fate id).ended := (hfate id).2.1
  have hlisteners (id : NodeId) : (M.fate id).listeners = (L.fate id).listeners := (hfate id).2.2.2
  refine h.frame (fun id => (hfate id).1) (fun id hid => (hended id).trans hid)
    (fun id => (hfate id).2.2.1) (fun id hid => ?_)
    (fun id listener hmem => (hended id).trans (h.told id listener hmem)) (fun id whole => ?_)
    (fun id => ?_) hhost hwatching
  · dsimp only at hid ⊢
    rw [hlisteners]
    exact h.silent id (hended id ▸ hid)
  · simp only [Moment.pending, hlisteners]
  · simp only [Moment.Finishing, hended]

theorem setHost (h : Join ⟨L, D, P⟩) (c : ContextId) (host : HostId) {g : HostFate → HostFate}
    (hended : ∀ f, (g f).ended = f.ended)
    (hwatchers : ∀ f, (g f).watchers.filterMap Watcher.node? = f.watchers.filterMap Watcher.node?) :
    Join ⟨L.setHost c host g, D, P⟩ := by
  refine h.of_ledger (fun _ => ⟨rfl, rfl, rfl, rfl⟩) (fun c' host' => iff_of_eq ?_) ?_
  · exact L.same_setHost c host g (·.any HostFate.ended = true) (fun f => by simp [hended]) c' host'
  · exact L.same_setHost c host g (fun f? => (f?.elim [] HostFate.watchers).filterMap Watcher.node?)
      hwatchers

theorem listen (h : Join ⟨L, D, P⟩) {id : NodeId} {listener : Listener}
    (hlive : (L.fate id).ended = false) (hother : ∀ whole, listener.isWhole whole = false) :
    Join ⟨L.setFate id (.listen listener), D, P⟩ := by
  have hsame (j : NodeId) : ((L.setFate id (.listen listener)).fate j).node = (L.fate j).node ∧
      ((L.setFate id (.listen listener)).fate j).ended = (L.fate j).ended ∧
      ((L.setFate id (.listen listener)).fate j).awaiting = (L.fate j).awaiting :=
    ⟨L.same_setFate id _ Fate.node rfl j, L.same_setFate id _ Fate.ended rfl j,
      L.same_setFate id _ Fate.awaiting rfl j⟩
  refine h.frame (fun j => (hsame j).1) (fun j hj => (hsame j).2.1.trans hj)
    (fun j => (hsame j).2.2) (fun j hj => ?_)
    (fun j other hmem => (hsame j).2.1.trans (h.told j other hmem)) (fun j whole => ?_)
    (fun j => ?_) (fun _ _ => .rfl) fun _ _ => rfl
  · have hended : (L.fate j).ended = true := (hsame j).2.1 ▸ hj
    have hne : j ≠ id := by
      rintro rfl
      rw [hlive] at hended
      cases hended
    dsimp only
    rw [Ledger.fate_setFate, if_neg hne]
    exact h.silent j hended
  · simp [Moment.countP_pending_listen, hother]
  · simp only [Moment.Finishing, (hsame j).2.1]

section Enrol

variable {node : Node} {N : Nat} {id : NodeId}

-- Nothing has happened to a node that is not there.
theorem ne_of_finishing (h : Join ⟨L, D, P⟩) (hfits : L.Fits N node)
    (hid : (Moment.mk L D P).Finishing id) : id ≠ node.id := by
  rintro rfl
  obtain ⟨other, hother⟩ := h.known _ hid
  rw [show (Moment.mk L D P).ledger = L from rfl, hfits.absent] at hother
  cases hother

theorem finishing_enrol (hne : id ≠ node.id) :
    (Moment.mk (L.enrol node) D P).Finishing id ↔ (Moment.mk L D P).Finishing id := by
  simp only [Moment.Finishing, L.same_enrol Fate.ended (fun _ => rfl) hne]

theorem finishing_enrol_self (h : Join ⟨L, D, P⟩) (hfits : L.Fits N node) :
    (Moment.mk (L.enrol node) D P).Finishing node.id ↔ node.awaited ≠ [] ∧ L.awaits node = [] := by
  have howed : .finish node.id ∉ D := fun hmem => h.ne_of_finishing hfits (.inr hmem) rfl
  simp [Moment.Finishing, Ledger.fate_enrol_self, Ledger.entry, howed]

theorem node_enrol_self {other : Node} (hother : ((L.enrol node).fate node.id).node = some other) :
    node = other := by
  rw [Ledger.fate_enrol_self] at hother
  exact Option.some_inj.1 hother

theorem node_enrol_of_ne (hne : id ≠ node.id) :
    ((L.enrol node).fate id).node = (L.fate id).node :=
  L.same_enrol Fate.node (fun _ => rfl) hne

theorem ended_enrol (h : Join ⟨L, D, P⟩) (hfits : L.Fits N node) (hid : (L.fate id).ended = true) :
    ((L.enrol node).fate id).ended = true := by
  rwa [L.same_enrol Fate.ended (fun _ => rfl) (h.ne_of_finishing hfits (.inl hid))]

theorem silent_enrol (h : Join ⟨L, D, P⟩) (hid : ((L.enrol node).fate id).ended = true) :
    ((L.enrol node).fate id).listeners = [] := by
  by_cases heq : id = node.id
  · rw [heq, Ledger.fate_enrol_self]
    rfl
  · rw [L.same_enrol Fate.ended (fun _ => rfl) heq] at hid
    have hgone : id ∉ L.awaits node := by simp [Ledger.awaits, hid]
    rw [L.fate_enrol_of_ne heq, if_neg hgone]
    exact h.silent id hid

theorem known_enrol (h : Join ⟨L, D, P⟩) (hid : (Moment.mk (L.enrol node) D P).Finishing id) :
    ∃ other, ((L.enrol node).fate id).node = some other := by
  by_cases heq : id = node.id
  · rw [heq, Ledger.fate_enrol_self]
    exact ⟨node, rfl⟩
  · rw [node_enrol_of_ne heq]
    exact h.known id ((finishing_enrol heq).1 hid)

theorem waits_enrol (h : Join ⟨L, D, P⟩) (hfits : L.Fits N node) (id whole : NodeId) :
    ((Moment.mk (L.enrol node) D P).pending id).countP (·.isWhole whole) =
      ((L.enrol node).fate whole).awaiting.count id := by
  have hawaiting : ((L.enrol node).fate whole).awaiting.count id =
      (L.fate whole).awaiting.count id +
        if id ∈ L.awaits node ∧ Listener.isWhole whole (.whole node.id) = true then 1 else 0 := by
    simp only [Listener.isWhole, beq_iff_eq]
    by_cases hwhole : whole = node.id
    · subst hwhole
      have hnodup : (L.awaits node).Nodup := node.nodup_awaited.filter _
      simp [Ledger.fate_enrol_self, hfits.absent, Fate.absent, Ledger.entry, hnodup.count]
    · rw [L.same_enrol Fate.awaiting (fun _ => rfl) hwhole]
      simp [Ne.symm hwhole]
  rw [Moment.countP_pending_enrol hfits, hawaiting]
  exact congrArg (· + _) (h.waits id whole)

theorem awaited_enrol (h : Join ⟨L, D, P⟩) {whole : NodeId}
    (hid : id ∈ ((L.enrol node).fate whole).awaiting) :
    ∃ other, ((L.enrol node).fate whole).node = some other ∧ id ∈ other.awaited := by
  by_cases heq : whole = node.id
  · rw [heq, Ledger.fate_enrol_self] at hid ⊢
    exact ⟨node, rfl, List.mem_of_mem_filter hid⟩
  · rw [L.same_enrol Fate.awaiting (fun _ => rfl) heq] at hid
    rw [node_enrol_of_ne heq]
    exact h.awaited whole id hid

theorem missed_enrol (h : Join ⟨L, D, P⟩) (hfits : L.Fits N node) {whole : NodeId} {other : Node}
    (hother : ((L.enrol node).fate whole).node = some other) (hid : id ∈ other.awaited)
    (hgone : id ∉ ((L.enrol node).fate whole).awaiting) :
    ((L.enrol node).fate id).ended = true := by
  by_cases heq : whole = node.id
  · subst heq
    obtain rfl := node_enrol_self hother
    rw [Ledger.fate_enrol_self] at hgone
    rw [L.same_enrol Fate.ended (fun _ => rfl) (hfits.ne_of_awaited hid)]
    simpa [Ledger.entry, Ledger.awaits, hid] using hgone
  · rw [node_enrol_of_ne heq] at hother
    rw [L.same_enrol Fate.awaiting (fun _ => rfl) heq] at hgone
    exact h.ended_enrol hfits (h.missed whole other id hother hid hgone)

theorem whole_enrol (h : Join ⟨L, D, P⟩) (hfits : L.Fits N node) {other : Node}
    (hother : ((L.enrol node).fate id).node = some other) (hwhole : other.IsWhole) :
    (Moment.mk (L.enrol node) D P).Finishing id ↔
      other.awaited ≠ [] ∧ ((L.enrol node).fate id).awaiting = [] := by
  by_cases heq : id = node.id
  · subst heq
    obtain rfl := node_enrol_self hother
    rw [Ledger.fate_enrol_self]
    exact h.finishing_enrol_self hfits
  · rw [node_enrol_of_ne heq] at hother
    rw [finishing_enrol heq, L.same_enrol Fate.awaiting (fun _ => rfl) heq]
    exact h.whole id other hother hwhole

-- A new node that is no whole is not about to end, whatever it plays on.
theorem finishing_enrol_bare (h : Join ⟨L, D, P⟩) (hfits : L.Fits N node) (hwhole : ¬node.IsWhole) :
    ¬(Moment.mk (L.enrol node) D P).Finishing node.id := by
  rw [h.finishing_enrol_self hfits, Node.awaited_eq_nil hwhole]
  exact fun hid => hid.1 rfl

theorem source_enrol (h : Join ⟨L, D, P⟩) (hfits : L.Fits N node) {other : Node} {host : HostId}
    (hlive : ∀ host, node.source? = some host → ¬L.HostEnded node.context host)
    (hother : ((L.enrol node).fate id).node = some other) (hsource : other.source? = some host) :
    (Moment.mk (L.enrol node) D P).Finishing id ↔ L.HostEnded other.context host := by
  by_cases heq : id = node.id
  · subst heq
    obtain rfl := node_enrol_self hother
    have hwhole := Node.not_isWhole_of_source hsource
    exact iff_of_false (h.finishing_enrol_bare hfits hwhole) (hlive host hsource)
  · rw [node_enrol_of_ne heq] at hother
    rw [finishing_enrol heq]
    exact h.source id other host hother hsource

theorem still_enrol (h : Join ⟨L, D, P⟩) (hfits : L.Fits N node) {other : Node}
    (hother : ((L.enrol node).fate id).node = some other) (hwhole : ¬other.IsWhole)
    (hsource : other.source? = none) : ¬(Moment.mk (L.enrol node) D P).Finishing id := by
  by_cases heq : id = node.id
  · subst heq
    obtain rfl := node_enrol_self hother
    exact h.finishing_enrol_bare hfits hwhole
  · rw [node_enrol_of_ne heq] at hother
    rw [finishing_enrol heq]
    exact h.still id other hother hwhole hsource

-- A node whose members have all ended has ended from the start; the others have it told of their end.
-- If it is a source, it watches its host node.
theorem enrol (h : Join ⟨L, D, P⟩) (hfits : L.Fits N node) (hfate : M.fate = (L.enrol node).fate)
    (hhost : ∀ c host, M.HostEnded c host ↔ L.HostEnded c host)
    (hlive : ∀ host, node.source? = some host → ¬L.HostEnded node.context host)
    (hwatching : ∀ c host id, id ∈ M.watching c host ↔
      id ∈ L.watching c host ∨ id = node.id ∧ c = node.context ∧ node.source? = some host) :
    Join ⟨M, D, P⟩ := by
  have hfinishing (id : NodeId) : (Moment.mk M D P).Finishing id ↔
      (Moment.mk (L.enrol node) D P).Finishing id := by
    simp only [Moment.Finishing, hfate]
  constructor <;> simp only [hfinishing, hfate, hhost]
  case silent => exact fun id hid => h.silent_enrol hid
  case told => exact fun id listener hmem => h.ended_enrol hfits (h.told id listener hmem)
  case known => exact fun id hid => h.known_enrol hid
  case waits =>
      intro id whole
      rw [← h.waits_enrol hfits id whole, Moment.pending, Moment.pending, hfate]
  case awaited => exact fun whole id hid => h.awaited_enrol hid
  case missed => exact fun whole other id hother hid hgone => h.missed_enrol hfits hother hid hgone
  case whole => exact fun id other hother hwhole => h.whole_enrol hfits hother hwhole
  case source => exact fun id other host hother hsource => h.source_enrol hfits hlive hother hsource
  case still =>
      exact fun id other hother hwhole hsource => h.still_enrol hfits hother hwhole hsource
  case watched =>
      intro id other host hother hsource hnot
      rw [hwatching]
      by_cases heq : id = node.id
      · subst heq
        obtain rfl := node_enrol_self hother
        exact .inr ⟨rfl, rfl, hsource⟩
      · rw [node_enrol_of_ne heq] at hother
        exact .inl (h.watched id other host hother hsource hnot)
  case watching =>
      intro c host id hid
      rcases (hwatching c host id).1 hid with hid | ⟨rfl, rfl, hsource⟩
      · obtain ⟨other, hother, hcontext, hsource⟩ := h.watching c host id hid
        have hne : id ≠ node.id := by
          rintro rfl
          rw [show (Moment.mk L D P).ledger = L from rfl, hfits.absent] at hother
          cases hother
        exact ⟨other, (node_enrol_of_ne hne).trans hother, hcontext, hsource⟩
      · exact ⟨node, by rw [Ledger.fate_enrol_self]; rfl, rfl, hsource⟩

end Enrol

-- Its listeners are pending before and after.
theorem finish {id : NodeId} (h : Join ⟨L, .finish id :: D, P⟩) :
    Join ⟨L.setFate id .close, (L.fate id).listeners.map (.tell id) ++ D, P⟩ := by
  have hother {j : NodeId} (hj : j ≠ id) : (L.setFate id .close).fate j = L.fate j := by
    rw [Ledger.fate_setFate, if_neg hj]
  have hsame (j : NodeId) : ((L.setFate id .close).fate j).node = (L.fate j).node ∧
      ((L.setFate id .close).fate j).awaiting = (L.fate j).awaiting :=
    ⟨L.same_setFate id _ Fate.node rfl j, L.same_setFate id _ Fate.awaiting rfl j⟩
  have hended (j : NodeId) (hj : (L.fate j).ended = true) :
      ((L.setFate id .close).fate j).ended = true := by
    rw [Ledger.fate_setFate]
    split
    case isTrue => rfl
    case isFalse => exact hj
  refine h.frame (fun j => (hsame j).1) hended (fun j => (hsame j).2) (fun j hj => ?_)
    (fun j listener hmem => ?_) (fun j whole => ?_) (fun j => ?_) (fun _ _ => .rfl) fun _ _ => rfl
  · by_cases hid : j = id
    · subst hid
      simp [Fate.close]
    · dsimp only at hj ⊢
      rw [hother hid] at hj ⊢
      exact h.silent j hj
  · rcases List.mem_append.1 hmem with hmem | hmem
    · obtain ⟨_, _, heq⟩ := List.mem_map.1 hmem
      cases heq
      simp [Fate.close]
    · exact hended j (h.told j listener (List.mem_cons_of_mem _ hmem))
  · rw [Moment.pending_finish]
  · simp only [Moment.Finishing, List.mem_append, List.mem_cons, Debt.finish.injEq]
    by_cases hid : j = id
    · subst hid
      simp [Fate.close]
    · simp [hother hid, hid]

theorem finished {id : NodeId} (h : Join ⟨L, .finish id :: D, P⟩)
    (hid : (L.fate id).node = none ∨ (L.fate id).ended = true) : Join ⟨L, D, P⟩ := by
  have hended : (L.fate id).ended = true := by
    refine hid.resolve_left fun hnone => ?_
    obtain ⟨node, hnode⟩ := h.known id (.inr List.mem_cons_self)
    rw [show (Moment.mk L (.finish id :: D) P).ledger = L from rfl, hnone] at hnode
    cases hnode
  refine h.frame (fun _ => rfl) (fun _ hj => hj) (fun _ => rfl) h.silent
    (fun j listener hmem => h.told j listener (List.mem_cons_of_mem _ hmem))
    (fun j whole => by simp [Moment.pending, List.filterMap_cons, Debt.told?]) (fun j => ?_)
    (fun _ _ => .rfl) fun _ _ => rfl
  simp only [Moment.Finishing, List.mem_cons, Debt.finish.injEq]
  constructor
  · exact Or.imp_right .inr
  · rintro (hj | rfl | hmem)
    · exact .inl hj
    · exact .inl hended
    · exact .inr hmem

section Member

variable {id whole j : NodeId}

-- What is owed once a whole has been told of a member.
abbrev owedAfter (L : Ledger) (D : List Debt) (id whole : NodeId) : List Debt :=
  if (L.fate whole).awaiting.erase id = [] then .finish whole :: D else D

theorem mem_owedAfter {debt : Debt} (hdebt : debt ∈ owedAfter L D id whole)
    (hne : debt ≠ .finish whole) : debt ∈ D := by
  unfold owedAfter at hdebt
  split at hdebt
  · exact (List.mem_cons.1 hdebt).resolve_left hne
  · exact hdebt

theorem told_owedAfter (j : NodeId) :
    (owedAfter L D id whole).filterMap (Debt.told? j) = D.filterMap (Debt.told? j) := by
  unfold owedAfter
  split
  · exact List.filterMap_cons_none rfl
  · rfl

theorem node_miss (j : NodeId) : ((L.setFate whole (.miss id)).fate j).node = (L.fate j).node :=
  L.same_setFate whole _ Fate.node rfl j

theorem ended_miss (j : NodeId) :
    ((L.setFate whole (.miss id)).fate j).ended = (L.fate j).ended :=
  L.same_setFate whole _ Fate.ended rfl j

theorem listeners_miss (j : NodeId) :
    ((L.setFate whole (.miss id)).fate j).listeners = (L.fate j).listeners :=
  L.same_setFate whole _ Fate.listeners rfl j

theorem fate_miss_of_ne (hj : j ≠ whole) : (L.setFate whole (.miss id)).fate j = L.fate j := by
  rw [Ledger.fate_setFate, if_neg hj]

theorem mem_awaiting (h : Join ⟨L, .tell id (.whole whole) :: D, P⟩) :
    id ∈ (L.fate whole).awaiting := by
  rw [← List.count_pos_iff, ← h.waits id whole, List.countP_pos_iff]
  exact ⟨.whole whole, by simp [Moment.pending, Debt.told?], by simp [Listener.isWhole]⟩

-- Only a whole is told of a member.
theorem isWhole_of_told (h : Join ⟨L, .tell id (.whole whole) :: D, P⟩) {node : Node}
    (hnode : (L.fate whole).node = some node) : node.IsWhole ∧ node.awaited ≠ [] := by
  obtain ⟨other, hother, hawaited⟩ := h.awaited whole id h.mem_awaiting
  obtain rfl : node = other := Option.some_inj.1 (hnode.symm.trans hother)
  exact ⟨Node.isWhole_of_awaited hawaited, List.ne_nil_of_mem hawaited⟩

theorem finishing_member (hj : j ≠ whole) :
    (Moment.mk (L.setFate whole (.miss id)) (owedAfter L D id whole) P).Finishing j ↔
      (Moment.mk L (.tell id (.whole whole) :: D) P).Finishing j := by
  simp only [Moment.Finishing, ended_miss, owedAfter]
  split <;> simp [hj]

-- It is about to end as soon as it waits for nobody any more, and no sooner.
theorem finishing_whole (h : Join ⟨L, .tell id (.whole whole) :: D, P⟩) :
    (Moment.mk (L.setFate whole (.miss id)) (owedAfter L D id whole) P).Finishing whole ↔
      (L.fate whole).awaiting.erase id = [] := by
  obtain ⟨node, hnode, -⟩ := h.awaited whole id h.mem_awaiting
  have hlive : ¬(Moment.mk L (.tell id (.whole whole) :: D) P).Finishing whole := fun hfin =>
    List.ne_nil_of_mem h.mem_awaiting
      ((h.whole whole node hnode (h.isWhole_of_told hnode).1).1 hfin).2
  simp only [Moment.Finishing, List.mem_cons, reduceCtorEq, false_or, not_or] at hlive
  simp only [Moment.Finishing, ended_miss, owedAfter]
  split <;> simp_all

theorem waits_member (h : Join ⟨L, .tell id (.whole whole) :: D, P⟩) (j other : NodeId) :
    ((Moment.mk (L.setFate whole (.miss id)) (owedAfter L D id whole) P).pending j).countP
      (·.isWhole other) = ((L.setFate whole (.miss id)).fate other).awaiting.count j := by
  have hbefore := h.waits j other
  have hpending : (Moment.mk (L.setFate whole (.miss id)) (owedAfter L D id whole) P).pending j =
      (Moment.mk L D P).pending j := by
    simp only [Moment.pending, listeners_miss, told_owedAfter]
  rw [Moment.countP_pending_tell] at hbefore
  rw [hpending]
  dsimp only at hbefore
  by_cases hother : other = whole
  · subst hother
    rw [L.fate_setFate_self, Fate.miss, List.count_erase, ← hbefore]
    by_cases hji : id = j
    · simp [hji, Listener.isWhole]
    · simp [hji, Ne.symm hji, Listener.isWhole]
  · rw [fate_miss_of_ne hother, ← hbefore]
    simp [Listener.isWhole, Ne.symm hother]

theorem awaiting_miss_subset (other : NodeId) :
    ((L.setFate whole (.miss id)).fate other).awaiting ⊆ (L.fate other).awaiting := by
  rw [Ledger.fate_setFate]
  split
  case isTrue heq =>
      subst heq
      exact List.erase_subset
  case isFalse => exact List.Subset.refl _

theorem missed_member (h : Join ⟨L, .tell id (.whole whole) :: D, P⟩) {other : NodeId} {node : Node}
    (hnode : (L.fate other).node = some node) (hj : j ∈ node.awaited)
    (hgone : j ∉ ((L.setFate whole (.miss id)).fate other).awaiting) :
    (L.fate j).ended = true := by
  by_cases hji : j = id
  · rw [hji]
    exact h.told id _ List.mem_cons_self
  · refine h.missed other node j hnode hj fun hmem => hgone ?_
    rw [Ledger.fate_setFate]
    split
    case isTrue heq =>
        subst heq
        exact (List.mem_erase_of_ne hji).2 hmem
    case isFalse => exact hmem

theorem whole_member (h : Join ⟨L, .tell id (.whole whole) :: D, P⟩) {node : Node}
    (hnode : (L.fate j).node = some node) (hwhole : node.IsWhole) :
    (Moment.mk (L.setFate whole (.miss id)) (owedAfter L D id whole) P).Finishing j ↔
      node.awaited ≠ [] ∧ ((L.setFate whole (.miss id)).fate j).awaiting = [] := by
  by_cases hj : j = whole
  · subst hj
    rw [h.finishing_whole, L.fate_setFate_self]
    exact (and_iff_right (h.isWhole_of_told hnode).2).symm
  · rw [finishing_member hj, fate_miss_of_ne hj]
    exact h.whole j node hnode hwhole

theorem finishing_bare (h : Join ⟨L, .tell id (.whole whole) :: D, P⟩) {node : Node}
    (hnode : (L.fate j).node = some node) (hwhole : ¬node.IsWhole) :
    (Moment.mk (L.setFate whole (.miss id)) (owedAfter L D id whole) P).Finishing j ↔
      (Moment.mk L (.tell id (.whole whole) :: D) P).Finishing j := by
  apply finishing_member
  rintro rfl
  exact hwhole (h.isWhole_of_told hnode).1

theorem member (h : Join ⟨L, .tell id (.whole whole) :: D, P⟩) :
    Join ⟨L.setFate whole (.miss id), owedAfter L D id whole, P⟩ := by
  constructor <;> simp only [node_miss, ended_miss, listeners_miss]
  case silent => exact h.silent
  case told =>
      intro j listener hmem
      exact h.told j listener (List.mem_cons_of_mem _ (mem_owedAfter hmem (by simp)))
  case known =>
      intro j hj
      by_cases hwhole : j = whole
      · obtain ⟨node, hnode, -⟩ := h.awaited whole id h.mem_awaiting
        exact ⟨node, hwhole ▸ hnode⟩
      · exact h.known j ((finishing_member hwhole).1 hj)
  case waits => exact h.waits_member
  case awaited => exact fun other j hj => h.awaited other j (awaiting_miss_subset other hj)
  case missed => exact fun other node j hnode hj hgone => h.missed_member hnode hj hgone
  case whole => exact fun j node hnode hwhole => h.whole_member hnode hwhole
  case source =>
      intro j node host hnode hsource
      rw [h.finishing_bare hnode (Node.not_isWhole_of_source hsource)]
      exact h.source j node host hnode hsource
  case still =>
      intro j node hnode hwhole hsource
      rw [h.finishing_bare hnode hwhole]
      exact h.still j node hnode hwhole hsource
  case watched => exact h.watched
  case watching => exact h.watching

end Member

section Due

variable {c : ContextId} {hosts : List HostId}

theorem hostEnded_closeHosts (hlive : ∀ host ∈ hosts, ∃ fate, L.host c host = some fate ∧
      fate.ended = false) (c' : ContextId) (host : HostId) :
    (L.closeHosts c hosts).HostEnded c' host ↔ L.HostEnded c' host ∨ c' = c ∧ host ∈ hosts := by
  rw [Ledger.HostEnded, Ledger.HostEnded, Ledger.host_closeHosts]
  split
  case isTrue hmem =>
      obtain ⟨rfl, hmem⟩ := hmem
      obtain ⟨fate, hfate, -⟩ := hlive host hmem
      simp [hfate, HostFate.close, hmem]
  case isFalse hmem => simp [hmem]

theorem watching_closeHosts (c' : ContextId) (host : HostId) :
    (L.closeHosts c hosts).watching c' host =
      if c' = c ∧ host ∈ hosts then [] else L.watching c' host := by
  rw [Ledger.watching, Ledger.host_closeHosts]
  split
  case isTrue => cases L.host c' host <;> rfl
  case isFalse => rfl

theorem finishing_due (id : NodeId) : (Moment.mk (L.closeHosts c hosts)
      ((hosts.flatMap (L.watching c)).map .finish ++ D) P).Finishing id ↔
    (Moment.mk L D P).Finishing id ∨ ∃ host ∈ hosts, id ∈ L.watching c host := by
  simp only [Moment.Finishing, List.mem_append, List.mem_map, List.mem_flatMap,
    Debt.finish.injEq, exists_eq_right]
  exact or_left_comm.trans or_comm.symm

-- What watches a host is a source on it.
theorem source_of_watching (h : Join ⟨L, D, P⟩) {id : NodeId} {node : Node}
    (hnode : (L.fate id).node = some node) {host : HostId} (hid : id ∈ L.watching c host) :
    node.context = c ∧ node.source? = some host := by
  obtain ⟨other, hother, hcontext, hsource⟩ := h.watching c host id hid
  obtain rfl : node = other := Option.some_inj.1 (hnode.symm.trans hother)
  exact ⟨hcontext, hsource⟩

theorem finishing_sourceless (h : Join ⟨L, D, P⟩) {id : NodeId} {node : Node}
    (hnode : (L.fate id).node = some node) (hnot : node.source? = none) :
    (Moment.mk (L.closeHosts c hosts) ((hosts.flatMap (L.watching c)).map .finish ++ D)
      P).Finishing id ↔ (Moment.mk L D P).Finishing id := by
  rw [finishing_due]
  refine or_iff_left ?_
  rintro ⟨host, -, hid⟩
  rw [(h.source_of_watching hnode hid).2] at hnot
  cases hnot

theorem source_due (h : Join ⟨L, D, P⟩)
    (hlive : ∀ host ∈ hosts, ∃ fate, L.host c host = some fate ∧ fate.ended = false)
    {id : NodeId} {node : Node} {host : HostId} (hnode : (L.fate id).node = some node)
    (hsource : node.source? = some host) :
    (Moment.mk (L.closeHosts c hosts) ((hosts.flatMap (L.watching c)).map .finish ++ D)
      P).Finishing id ↔ (L.closeHosts c hosts).HostEnded node.context host := by
  rw [finishing_due, hostEnded_closeHosts hlive, ← h.source id node host hnode hsource]
  refine or_congr_right ⟨?_, ?_⟩
  · rintro ⟨other, hother, hid⟩
    obtain ⟨hcontext, hsame⟩ := h.source_of_watching hnode hid
    obtain rfl : host = other := Option.some_inj.1 (hsource.symm.trans hsame)
    exact ⟨hcontext, hother⟩
  · rintro ⟨rfl, hmem⟩
    obtain ⟨fate, hfate, hfatelive⟩ := hlive host hmem
    refine ⟨host, hmem, h.watched id node host hnode hsource ?_⟩
    simp [Ledger.HostEnded, hfate, hfatelive]

theorem due (h : Join ⟨L, D, P⟩)
    (hlive : ∀ host ∈ hosts, ∃ fate, L.host c host = some fate ∧ fate.ended = false) :
    Join ⟨L.closeHosts c hosts, (hosts.flatMap (L.watching c)).map .finish ++ D, P⟩ where
  silent := h.silent
  told id listener hmem := h.told id listener (by simpa using hmem)
  known id hid := by
    rcases (finishing_due id).1 hid with hid | ⟨host, -, hid⟩
    · exact h.known id hid
    · obtain ⟨node, hnode, -⟩ := h.watching c host id hid
      exact ⟨node, hnode⟩
  waits id whole := by
    simp only [Moment.pending, List.filterMap_append, Debt.filterMap_finishes, List.nil_append]
    exact h.waits id whole
  awaited := h.awaited
  missed := h.missed
  whole id node hnode hwhole := by
    have hnot : node.source? = none := by
      cases node <;> simp_all [Node.source?, Node.IsWhole]
    rw [h.finishing_sourceless hnode hnot]
    exact h.whole id node hnode hwhole
  source id node host hnode hsource := h.source_due hlive hnode hsource
  still id node hnode hwhole hnot := by
    rw [h.finishing_sourceless hnode hnot]
    exact h.still id node hnode hwhole hnot
  watched id node host hnode hsource hnot := by
    rw [hostEnded_closeHosts hlive, not_or] at hnot
    dsimp only
    rw [watching_closeHosts, if_neg hnot.2]
    exact h.watched id node host hnode hsource hnot.1
  watching c' host id hid := by
    dsimp only at hid
    rw [watching_closeHosts] at hid
    split at hid
    case isTrue => cases hid
    case isFalse => exact h.watching c' host id hid

end Due

-- A host node that is there gains a node that watches it.
theorem mem_watching_watch {c c' : ContextId} {host host' : HostId} {id other : NodeId}
    {fate : HostFate} (hfate : L.host c host = some fate) :
    id ∈ (L.setHost c host (.watch (.node other))).watching c' host' ↔
      id ∈ L.watching c' host' ∨ id = other ∧ c' = c ∧ host' = host := by
  rw [Ledger.watching, Ledger.watching, Ledger.host_setHost]
  split
  case isTrue heq =>
      obtain ⟨rfl, rfl⟩ := heq
      simp [hfate, HostFate.watch, Watcher.node?]
  case isFalse heq => simp [heq]

theorem of_hosts {hosts : ContextId → HostId → Option HostFate} {contexts : Nat}
    (h : Join ⟨L, D, P⟩) (hsame : ∀ {α : Type} (part : Option HostFate → α),
      (∀ kind, part (some (.fresh kind)) = part none) →
        ∀ c host, part (hosts c host) = part (L.host c host)) :
    Join ⟨{ L with contexts, host := hosts }, D, P⟩ := by
  refine h.of_ledger (fun _ => ⟨rfl, rfl, rfl, rfl⟩) (fun c host => iff_of_eq ?_) ?_
  · exact hsame (·.any HostFate.ended = true) (fun _ => rfl) c host
  · exact hsame (fun f? => (f?.elim [] HostFate.watchers).filterMap Watcher.node?) fun _ => rfl

theorem node (h : Join ⟨L, D, P⟩) {node : Node} {N : Nat} (hfits : L.Fits N node)
    (hs : node.source? = none) : Join ⟨L.enrol node, D, P⟩ := by
  refine h.enrol hfits rfl (fun _ _ => .rfl) (by simp [hs]) fun c host id => ?_
  simp only [hs, reduceCtorEq, and_false, or_false]
  exact .rfl

theorem sounding (h : Join ⟨L, D, P⟩) {node : Node} {host : HostId} {N : Nat}
    (hfits : L.Fits N node) (hs : node.source? = some host) {fate : HostFate}
    (hfate : L.host node.context host = some fate) (hlive : fate.ended = false) :
    Join ⟨(L.enrol node).setHost node.context host (.watch (.node node.id)), D, P⟩ := by
  refine h.enrol hfits rfl (fun c' host' => iff_of_eq ?_) (fun host' hhost' => ?_) fun c' host' id => ?_
  · exact (L.enrol node).same_setHost node.context host (.watch (.node node.id))
      (·.any HostFate.ended = true) (fun _ => rfl) c' host'
  · obtain rfl : host = host' := Option.some_inj.1 (hs.symm.trans hhost')
    simp [Ledger.HostEnded, hfate, hlive]
  · have hthere : (L.enrol node).host node.context host = some fate := hfate
    rw [mem_watching_watch hthere, hs, Option.some_inj, eq_comm (a := host')]
    exact .rfl

end Join

theorem Makes.join {N : Nat} {L M : Ledger} {D : List Debt} {P : Past} (h : Makes N L M)
    (hL : Join ⟨L, D, P⟩) : Join ⟨M, D, P⟩ := by
  cases h with
  | openContext hnone => exact hL.of_hosts fun part hpart => L.same_openContext part hnone (hpart _)
  | create c host kind hc hh => exact hL.of_hosts fun part hpart => L.same_create part hh (hpart _)
  | request c request =>
      refine hL.setHost c _ (fun f => ?_) fun f => by rw [request.watchers_mark]
      cases request <;> rfl
  | watch c h tag =>
      refine hL.setHost c h (fun _ => rfl) fun f => ?_
      simp [HostFate.watch, Watcher.node?]
  | node node hfits hs => exact hL.node hfits hs
  | source node host kind hfits hs hkind hhost =>
      obtain ⟨fate, hfate, -, hlive⟩ := hhost
      exact hL.sounding hfits hs hfate hlive
  | builder | memo | instrument =>
      exact hL.of_ledger (fun _ => ⟨rfl, rfl, rfl, rfl⟩) (fun _ _ => .rfl) fun _ _ => rfl

theorem Move.join {N : Nat} {m m' : Moment} (h : Move N m m') (hm : Join m) : Join m' := by
  cases h with
  | make h => exact h.join hm
  | play k r node hk hnode hlive =>
      refine Join.listen ?_ hlive fun _ => rfl
      exact hm.of_ledger (fun _ => ⟨rfl, rfl, rfl, rfl⟩) (fun _ _ => .rfl) fun _ _ => rfl
  | playEnded k r node hk hnode hended =>
      have hplay := hm.of_ledger (M := Ledger.setRoster _ k (.play node))
        (fun _ => ⟨rfl, rfl, rfl, rfl⟩) (fun _ _ => .rfl) fun _ _ => rfl
      refine hplay.owe [] [_] (by simp) ?_
      simpa [Join.Idle, Listener.isWhole] using hended
  | ask node tag reply hnode hreply hlive =>
      refine Join.listen ?_ hlive fun _ => rfl
      exact hm.of_ledger (fun _ => ⟨rfl, rfl, rfl, rfl⟩) (fun _ _ => .rfl) fun _ _ => rfl
  | askEnded node tag reply hnode hended =>
      have hask := hm.of_ledger (M := Ledger.ask _ node.id tag) (fun _ => ⟨rfl, rfl, rfl, rfl⟩)
        (fun _ _ => .rfl) fun _ _ => rfl
      refine hask.owe [] [_] (by simp) ?_
      simpa [Join.Idle, Listener.isWhole, Ledger.ask] using hended
  | finish id node hnode hlive => exact hm.finish
  | finished id h => exact hm.finished h
  | member id whole => exact hm.member
  | release id k i r voice hk hvoice =>
      have hended := hm.told id _ List.mem_cons_self
      refine (hm.owe [_] [.cut voice.1, .announce k i] ?_ (by simp [Join.Idle])).of_ledger
        (fun _ => ⟨rfl, rfl, rfl, rfl⟩) (fun _ _ => .rfl) fun _ _ => rfl
      simpa [Join.Idle, Listener.isWhole] using hended
  | released id k i h =>
      have hended := hm.told id _ List.mem_cons_self
      refine hm.owe [_] [] ?_ (by simp)
      simpa [Join.Idle, Listener.isWhole] using hended
  | call id tag reply =>
      have hended := hm.told id _ List.mem_cons_self
      refine (hm.owe [_] [] ?_ (by simp)).of_ledger
        (fun _ => ⟨rfl, rfl, rfl, rfl⟩) (fun _ _ => .rfl) fun _ _ => rfl
      simpa [Join.Idle, Listener.isWhole] using hended
  | @cut L D P node hnode hcut =>
      have hsame {α : Type} := L.same_setFate (α := α) node.id .cutOff
      refine (hm.owe [_] node.cuts (by simp [Join.Idle]) ?_).of_ledger
        (fun id => ⟨hsame Fate.node rfl id, hsame Fate.ended rfl id, hsame Fate.awaiting rfl id,
          hsame Fate.listeners rfl id⟩) (fun _ _ => .rfl) fun _ _ => rfl
      simp only [Node.cuts, List.mem_append, List.mem_map]
      rintro _ (⟨_, _, rfl⟩ | ⟨_, _, rfl⟩) <;> trivial
  | cutAgain node hcut => exact hm.owe [_] [] (by simp [Join.Idle]) (by simp)
  | cutHost c h =>
      exact (hm.owe [_] [] (by simp [Join.Idle]) (by simp)).setHost c h (fun _ => rfl) fun _ => rfl
  | announce k i =>
      exact (hm.owe [_] [] (by simp [Join.Idle]) (by simp)).of_ledger
        (fun _ => ⟨rfl, rfl, rfl, rfl⟩) (fun _ _ => .rfl) fun _ _ => rfl
  | due c hosts hnodup hlive => exact hm.due hlive
  | drop node hnode => exact hm.owe [] [.cut node] (by simp) (by simp [Join.Idle])
  | dropHost c h hhost => exact hm.owe [] [.cutHost c h] (by simp) (by simp [Join.Idle])

theorem Moves.join {N : Nat} {m m' : Moment} (h : Moves N m m') (hm : Join m) : Join m' := by
  induction h with
  | refl => exact hm
  | tail _ h ih => exact h.join ih

end Patchbay
