import Patchbay.Proofs.Session.Moves

namespace Patchbay

theorem Studio.hostEnded_iff {s : Studio} (c : ContextId) (h : HostId) :
    s.ledger.HostEnded c h ↔ ((s.engine c).nodes[h]?).any (·.ended) = true := by
  rw [Ledger.HostEnded, s.any_host rfl]
  rfl

namespace Node

theorem emitsEnded_of_still {node : Node} (hwhole : ¬node.IsWhole) (hsource : node.source? = none) :
    node.emitsEnded = false := by
  cases node with
  | leaf info host source params modulators => cases source <;> simp_all [source?, emitsEnded]
  | envelope => rfl
  | series | parallel | wrapped => exact absurd trivial hwhole

-- What the end of a node comes down to.
structure Joined (node : Node) (studio : Studio) : Prop where
  source : ∀ host, node.source? = some host → ((node.state studio).ended = true ↔
    ((studio.engine node.context).nodes[host]?).any (·.ended) = true)
  emits : node.IsWhole →
    (node.emitsEnded = true ↔ ∃ member ∈ node.members, member.emitsEnded = true)
  whole : node.IsWhole → ((node.state studio).ended = true ↔ node.emitsEnded = true ∧
    ∀ member ∈ node.members, member.emitsEnded = true → (member.state studio).ended = true)
  still : ¬node.IsWhole → node.source? = none →
    node.emitsEnded = false ∧ (node.state studio).ended = false

end Node

namespace Session

variable {session : Session}

theorem finishing_iff (id : NodeId) :
    session.moment.Finishing id ↔ (session.studio.ledger.fate id).ended = true :=
  or_iff_left List.not_mem_nil

-- A whole that waits for nothing more has seen all the members end that it waited for.
theorem awaiting_eq_nil_iff (h : session.moment.Lawful) {node : Node}
    (hnode : session.studio.ledger.Knows node) :
    (session.studio.ledger.fate node.id).awaiting = [] ↔
      ∀ id ∈ node.awaited, (session.studio.ledger.fate id).ended = true := by
  constructor
  · intro hnil id hid
    exact h.join.missed node.id node id hnode hid (hnil ▸ List.not_mem_nil)
  · intro hended
    by_contra hne
    obtain ⟨id, hid⟩ := List.exists_mem_of_ne_nil _ hne
    obtain ⟨whole, hwhole, hawaited⟩ := h.join.awaited node.id id hid
    obtain rfl : node = whole := Option.some_inj.1 (hnode.symm.trans hwhole)
    have hsilent : session.moment.pending id = [] := by
      rw [Moment.pending, h.join.silent id (hended id hawaited)]
      rfl
    have hwaits := h.join.waits id node.id
    rw [hsilent, List.countP_nil] at hwaits
    exact List.count_eq_zero.1 hwaits.symm hid

theorem joined_of_lawful (h : session.moment.Lawful) {node : Node}
    (hnode : session.studio.ledger.Knows node) : node.Joined session.studio := by
  constructor
  case source =>
      intro host hsource
      rw [node.state_ended, ← finishing_iff, ← Studio.hostEnded_iff]
      exact h.join.source node.id node host hnode hsource
  case emits => exact Node.emitsEnded_iff_member
  case whole =>
      intro hwhole
      rw [node.state_ended, ← finishing_iff, h.join.whole node.id node hnode hwhole,
        Node.awaited_ne_nil_iff hwhole]
      refine and_congr_right fun _ => (awaiting_eq_nil_iff h hnode).trans ?_
      simp only [Node.mem_awaited, Node.state_ended]
      constructor
      · intro hended member hmember hemits
        exact hended member.id ⟨member, hmember, hemits, rfl⟩
      · rintro hended id ⟨member, hmember, hemits, rfl⟩
        exact hended member hmember hemits
  case still =>
      intro hwhole hsource
      refine ⟨Node.emitsEnded_of_still hwhole hsource, ?_⟩
      rw [node.state_ended, Bool.eq_false_iff, Ne, ← finishing_iff]
      exact h.join.still node.id node hnode hwhole hsource

end Session

end Patchbay
