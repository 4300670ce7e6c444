import Patchbay.Proofs.Ledger.Moves

namespace Patchbay

def Listener.isCaller (tag : String) : Listener → Bool
  | .caller other _ => other == tag
  | .whole _ | .voice _ _ => false

def Debt.calls (tag : String) : Debt → Bool
  | .tell _ listener => listener.isCaller tag
  | .finish _ | .cut _ | .cutHost _ _ | .announce _ _ => false

-- Callers are known by their tags, so it is the calls under a tag that are counted.
structure Callers (m : Moment) : Prop where
  known : ∀ id tag, (id, tag) ∈ m.ledger.asked → ∃ node, (m.ledger.fate id).node = some node
  waiting : ∀ id tag, (m.ledger.fate id).ended = false →
    (m.ledger.fate id).listeners.countP (·.isCaller tag) = m.ledger.asked.count (id, tag)
  called : ∀ tag, m.ledger.called.count tag + m.owed.countP (·.calls tag) =
    m.ledger.asked.countP fun request => request.2 == tag && (m.ledger.fate request.1).ended

namespace Callers

-- With the end of a node the callers that asked for it are due.
theorem countP_asked_close (asked : List (NodeId × String)) (ended : NodeId → Bool) (tag : String)
    {id : NodeId} (hlive : ended id = false) :
    (asked.countP fun request => request.2 == tag && (request.1 == id || ended request.1)) =
      (asked.countP fun request => request.2 == tag && ended request.1) + asked.count (id, tag) := by
  induction asked with
  | nil => rfl
  | cons request rest ih =>
      obtain ⟨other, tag'⟩ := request
      simp only [List.countP_cons, List.count_cons, ih]
      by_cases hid : other = id
      · subst hid
        by_cases htag : tag' = tag <;> simp [hlive, htag]
        omega
      · simp [hid]
        omega

variable {m m' : Moment}

theorem frame (h : Callers m) (hgrows : m.ledger.Grows m'.ledger)
    (hasked : m'.ledger.asked = m.ledger.asked)
    (hended : ∀ id node, (m.ledger.fate id).node = some node →
      (m'.ledger.fate id).ended = (m.ledger.fate id).ended)
    (hwaiting : ∀ id tag, (m'.ledger.fate id).ended = false →
      (m.ledger.fate id).ended = false ∧
      (m'.ledger.fate id).listeners.countP (·.isCaller tag) =
        (m.ledger.fate id).listeners.countP (·.isCaller tag))
    (hcalled : ∀ tag, m'.ledger.called.count tag + m'.owed.countP (·.calls tag) =
      m.ledger.called.count tag + m.owed.countP (·.calls tag)) : Callers m' := by
  constructor
  case known =>
      intro id tag hmem
      obtain ⟨node, hnode⟩ := h.known id tag (hasked ▸ hmem)
      exact ⟨node, (hgrows.fate id).node node hnode⟩
  case waiting =>
      intro id tag hlive
      obtain ⟨hold, hcount⟩ := hwaiting id tag hlive
      rw [hcount, hasked]
      exact h.waiting id tag hold
  case called =>
      intro tag
      rw [hcalled, hasked, h.called]
      refine List.countP_congr fun request hmem => ?_
      obtain ⟨node, hnode⟩ := h.known request.1 request.2 hmem
      rw [hended request.1 node hnode]

variable {L M : Ledger} {D E : List Debt} {P Q : Past}

-- Nothing but ends, callers and what is asked counts.
theorem of_ledger (h : Callers ⟨L, D, P⟩) (hgrows : L.Grows M) (hasked : M.asked = L.asked)
    (hended : ∀ id, (M.fate id).ended = (L.fate id).ended)
    (hlisteners : ∀ id tag, (M.fate id).listeners.countP (·.isCaller tag) =
      (L.fate id).listeners.countP (·.isCaller tag))
    (hcalled : ∀ tag, M.called.count tag + E.countP (·.calls tag) =
      L.called.count tag + D.countP (·.calls tag)) : Callers ⟨M, E, Q⟩ :=
  h.frame hgrows hasked (fun id _ _ => hended id)
    (fun id tag hlive => ⟨hended id ▸ hlive, hlisteners id tag⟩) hcalled

theorem ask (h : Callers ⟨L, D, P⟩) {node : Node} {tag : String} {reply : Reply Node}
    (hnode : L.Knows node) (hlive : (L.fate node.id).ended = false) :
    Callers ⟨(L.ask node.id tag).setFate node.id (.listen (.caller tag reply)), D, P⟩ := by
  have hsame {α : Type} := (L.ask node.id tag).same_setFate (α := α) node.id
    (.listen (.caller tag reply))
  constructor
  case known =>
      intro id tag' hmem
      dsimp only
      rw [hsame Fate.node rfl]
      rcases List.mem_append.1 hmem with hmem | hmem
      · exact h.known id tag' hmem
      · cases List.mem_singleton.1 hmem
        exact ⟨node, hnode⟩
  case waiting =>
      intro id tag' hid
      dsimp only at hid ⊢
      rw [hsame Fate.ended rfl] at hid
      rw [Ledger.asked_setFate, Ledger.ask, List.count_append, ← h.waiting id tag' hid,
        Ledger.fate_setFate]
      by_cases heq : id = node.id
      · subst heq
        by_cases htag : tag = tag' <;> simp [Fate.listen, Listener.isCaller, htag]
      · simp [heq, Ne.symm heq]
  case called =>
      intro tag'
      have hcalled := h.called tag'
      dsimp only at hcalled ⊢
      simp only [hsame Fate.ended rfl]
      rw [Ledger.asked_setFate, Ledger.called_setFate, Ledger.ask, List.countP_append, hcalled]
      simp [hlive]

theorem askEnded (h : Callers ⟨L, D, P⟩) {node : Node} {tag : String} {reply : Reply Node}
    (hnode : L.Knows node) (hended : (L.fate node.id).ended = true) :
    Callers ⟨L.ask node.id tag, .tell node.id (.caller tag reply) :: D, P⟩ := by
  constructor
  case known =>
      intro id tag' hmem
      rcases List.mem_append.1 hmem with hmem | hmem
      · exact h.known id tag' hmem
      · cases List.mem_singleton.1 hmem
        exact ⟨node, hnode⟩
  case waiting =>
      intro id tag' hid
      have hne : node.id ≠ id := by
        rintro rfl
        exact Bool.false_ne_true (hid.symm.trans hended)
      have hwaiting := h.waiting id tag' hid
      dsimp only [Ledger.ask] at hwaiting ⊢
      rw [List.count_append, ← hwaiting]
      simp [hne]
  case called =>
      intro tag'
      have hcalled := h.called tag'
      dsimp only [Ledger.ask] at hcalled ⊢
      rw [List.countP_append, List.countP_cons, ← hcalled]
      by_cases htag : tag = tag'
      · simp [Debt.calls, Listener.isCaller, htag, hended]
        omega
      · simp [Debt.calls, Listener.isCaller, htag]

theorem finish {id : NodeId} (h : Callers ⟨L, .finish id :: D, P⟩)
    (hlive : (L.fate id).ended = false) :
    Callers ⟨L.setFate id .close, (L.fate id).listeners.map (.tell id) ++ D, P⟩ := by
  have hended (j : NodeId) : ((L.setFate id .close).fate j).ended =
      (j == id || (L.fate j).ended) := by
    rw [Ledger.fate_setFate]
    by_cases hj : j = id <;> simp [hj, Fate.close]
  constructor
  case known =>
      intro j tag hmem
      dsimp only
      rw [L.same_setFate id .close Fate.node rfl]
      exact h.known j tag hmem
  case waiting =>
      intro j tag hj
      dsimp only at hj ⊢
      rw [hended, Bool.or_eq_false_iff, beq_eq_false_iff_ne] at hj
      rw [Ledger.fate_setFate, if_neg hj.1]
      exact h.waiting j tag hj.2
  case called =>
      intro tag
      have hcalled := h.called tag
      have hwaiting := h.waiting id tag hlive
      dsimp only at hcalled hwaiting ⊢
      have htells : ((L.fate id).listeners.map (Debt.tell id)).countP (·.calls tag) =
          (L.fate id).listeners.countP (·.isCaller tag) := by
        rw [List.countP_map]
        rfl
      have hfinish : (Debt.finish id :: D).countP (·.calls tag) = D.countP (·.calls tag) :=
        List.countP_cons_of_neg (by simp [Debt.calls])
      simp only [hended]
      rw [Ledger.asked_setFate, countP_asked_close _ (fun j => (L.fate j).ended) tag hlive,
        ← hcalled, ← hwaiting, List.countP_append, htells, hfinish, Ledger.called_setFate]
      omega

-- Whatever a new node waits for, no caller is told of its end.
theorem enrol {L M : Ledger} {D : List Debt} {P : Past} {N : Nat} {node : Node}
    (h : Callers ⟨L, D, P⟩) (hfits : L.Fits N node) (hgrows : L.Grows M)
    (hfate : M.fate = (L.enrol node).fate) (hasked : M.asked = L.asked)
    (hcalled : M.called = L.called) : Callers ⟨M, D, P⟩ := by
  refine h.frame hgrows hasked (fun id other hid => ?_) (fun id tag hlive => ?_)
    fun _ => by rw [hcalled]
  · have hne : id ≠ node.id := by
      rintro rfl
      dsimp only at hid
      rw [hfits.absent] at hid
      cases hid
    rw [hfate, L.same_enrol Fate.ended (fun _ => rfl) hne]
  · dsimp only at hlive ⊢
    rw [hfate] at hlive ⊢
    by_cases hid : id = node.id
    · rw [hid, L.fate_enrol_self, hfits.absent]
      exact ⟨rfl, rfl⟩
    · rw [L.same_enrol Fate.ended (fun _ => rfl) hid] at hlive
      refine ⟨hlive, L.same_enrol (·.listeners.countP (·.isCaller tag)) (fun _ => ?_) hid⟩
      simp [Fate.listen, Listener.isCaller]

end Callers

theorem Makes.callers {N : Nat} {L M : Ledger} {D : List Debt} {P : Past} (h : Makes N L M)
    (hL : Callers ⟨L, D, P⟩) : Callers ⟨M, D, P⟩ := by
  have hgrows := h.grows
  have hsame {M : Ledger} (hLM : L.Grows M) (hfate : M.fate = L.fate) (hasked : M.asked = L.asked)
      (hcalled : M.called = L.called) : Callers ⟨M, D, P⟩ :=
    hL.of_ledger hLM hasked (fun _ => by rw [hfate]) (fun _ _ => by rw [hfate])
      fun _ => by rw [hcalled]
  cases h with
  | node node hfits => exact hL.enrol hfits hgrows rfl rfl rfl
  | source node host kind hfits => exact hL.enrol hfits hgrows rfl rfl rfl
  | openContext | create | request | watch | builder | memo | instrument =>
      exact hsame hgrows rfl rfl rfl

theorem Move.callers {N : Nat} {m m' : Moment} (h : Move N m m') (hm : Callers m) : Callers m' := by
  have hgrows := h.grows
  cases h with
  | make h => exact h.callers hm
  | ask node tag reply hnode hreply hlive => exact hm.ask hnode hlive
  | askEnded node tag reply hnode hended => exact hm.askEnded hnode hended
  | finish id node hnode hlive => exact hm.finish hlive
  | @play L D P k r node hk hnode hlive =>
      have hsame {α : Type} := (L.setRoster k (.play node)).same_setFate (α := α) node.id
        (.listen (.voice k r.played.length))
      refine hm.of_ledger hgrows rfl (hsame Fate.ended rfl) (fun id tag => ?_) fun _ => rfl
      refine hsame (fun fate => fate.listeners.countP (·.isCaller tag)) ?_ id
      simp [Fate.listen, Listener.isCaller]
  | @member L D P id whole =>
      have hsame {α : Type} := L.same_setFate (α := α) whole (.miss id)
      refine hm.of_ledger hgrows rfl (hsame Fate.ended rfl)
        (fun j tag => congrArg (List.countP _) (hsame Fate.listeners rfl j)) fun tag => ?_
      split <;> simp [Debt.calls, Listener.isCaller]
  | @cut L D P node hnode hcut =>
      have hsame {α : Type} := L.same_setFate (α := α) node.id .cutOff
      refine hm.of_ledger hgrows rfl (hsame Fate.ended rfl)
        (fun j tag => congrArg (List.countP _) (hsame Fate.listeners rfl j)) fun tag => ?_
      simp [Node.cuts, List.countP_map, Function.comp_def, Debt.calls]
  | call id tag reply =>
      refine hm.of_ledger hgrows rfl (fun _ => rfl) (fun _ _ => rfl) fun other => ?_
      by_cases htag : tag = other
      · simp [Ledger.call, Debt.calls, Listener.isCaller, htag]
        omega
      · simp [Ledger.call, Debt.calls, Listener.isCaller, htag]
  | due c hosts hnodup hlive =>
      refine hm.of_ledger hgrows rfl (fun _ => rfl) (fun _ _ => rfl) fun tag => ?_
      simp [Ledger.closeHosts, List.countP_map, Function.comp_def, Debt.calls]
  | playEnded | finished | release | released | cutAgain | cutHost | announce | drop | dropHost =>
      refine hm.of_ledger hgrows rfl (fun _ => rfl) (fun _ _ => rfl) fun tag => ?_
      simp [Debt.calls, Listener.isCaller]

theorem Moves.callers {N : Nat} {m m' : Moment} (h : Moves N m m') (hm : Callers m) :
    Callers m' := by
  induction h with
  | refl => exact hm
  | tail _ h ih => exact h.callers ih

end Patchbay
