import Patchbay.Proofs.Ends.Join

namespace Patchbay

def Listener.isVoice (k : InstrumentId) (i : VoiceId) : Listener → Bool
  | .voice inst id => inst == k && id == i
  | .whole _ | .caller _ _ => false

def Debt.announces (k : InstrumentId) (i : VoiceId) : Debt → Bool
  | .announce inst id => inst == k && id == i
  | .finish _ | .tell _ _ | .cut _ | .cutHost _ _ => false

namespace Roster

-- The node of a registered voice.
def voice? (r : Roster) (i : VoiceId) : Option Node := (r.voices.find? (·.2 == i)).map Prod.fst

-- The id was handed out, and is registered no more.
def left (r : Roster) (i : VoiceId) : Bool := decide (i < r.played.length) && (r.voice? i).isNone

-- Voices are registered in the order of their ids, each with the node that was played for it.
def Ordered (r : Roster) : Prop := r.voices.Sublist r.played.zipIdx

variable {r : Roster} (node : Node) (i j : VoiceId)

theorem Ordered.played (h : r.Ordered) {i : VoiceId} {node : Node} (hvoice : (node, i) ∈ r.voices) :
    r.played[i]? = some node :=
  List.mem_zipIdx_iff_getElem?.1 (h.subset hvoice)

theorem mem_of_voice? {i : VoiceId} {node : Node} (h : r.voice? i = some node) :
    (node, i) ∈ r.voices := by
  obtain ⟨⟨other, j⟩, hfind, rfl⟩ := Option.map_eq_some_iff.1 h
  obtain rfl : j = i := by simpa using List.find?_some hfind
  exact List.mem_of_find?_eq_some hfind

theorem Ordered.voice?_play (h : r.Ordered) : (r.play node).voice? i =
    if i = r.played.length then some node else r.voice? i := by
  simp only [voice?, Roster.play, List.find?_append]
  by_cases hi : i = r.played.length
  · subst hi
    have hnone : r.voices.find? (·.2 == r.played.length) = none := by
      rw [List.find?_eq_none]
      rintro ⟨other, j⟩ hmem heq
      obtain rfl : j = r.played.length := by simpa using heq
      simpa using h.played hmem
    simp [hnone]
  · have hlast : [(node, r.played.length)].find? (·.2 == i) = none := by simp [Ne.symm hi]
    simp [hlast, hi]

theorem voice?_release : (r.release i).voice? j = if j = i then none else r.voice? j := by
  simp only [voice?, Roster.release, List.find?_filter]
  by_cases hj : j = i
  · subst hj
    simp
  · have hsame (voice : Node × VoiceId) :
        decide ((voice.2 != i) = true ∧ (voice.2 == j) = true) = (voice.2 == j) := by
      by_cases hv : voice.2 = j <;> simp [hv, hj]
    simp only [hsame, if_neg hj]

theorem Ordered.left_play (h : r.Ordered) : (r.play node).left i = r.left i := by
  simp only [left, h.voice?_play]
  by_cases hi : i = r.played.length
  · simp [hi]
  · have hlt : i < r.played.length + 1 ↔ i < r.played.length :=
      ⟨fun hle => Nat.lt_of_le_of_ne (Nat.le_of_lt_succ hle) hi, Nat.lt_succ_of_lt⟩
    simp [hi, Roster.play, hlt]

-- One more voice is heard of, that of the node.
theorem Ordered.hears_play (h : r.Ordered) (id : NodeId) :
    (if ((r.play node).voice? i).any (·.id == id) then 1 else 0) =
      (if (r.voice? i).any (·.id == id) then 1 else 0) +
        if id = node.id ∧ i = r.played.length then 1 else 0 := by
  rw [h.voice?_play]
  by_cases hi : i = r.played.length
  · have hnone : r.voice? i = none := by
      rw [Option.eq_none_iff_forall_ne_some]
      intro other hother
      simpa [hi] using h.played (Roster.mem_of_voice? hother)
    by_cases hid : id = node.id
    · simp [hi, hid, hi ▸ hnone]
    · simp [hi, hid, Ne.symm hid, hi ▸ hnone]
  · simp [hi]

theorem left_release {i : VoiceId} (hi : i < r.played.length) :
    (r.release i).left j = (j == i || r.left j) := by
  simp only [left, voice?_release]
  by_cases hj : j = i
  · simp [hj, Roster.release, hi]
  · rw [if_neg hj, beq_eq_false_iff_ne.2 hj, Bool.false_or]
    rfl

theorem Ordered.play (h : r.Ordered) : (r.play node).Ordered := by
  rw [Ordered, Roster.play, List.zipIdx_append]
  exact h.append (by simp)

theorem Ordered.release (h : r.Ordered) : (r.release i).Ordered := List.filter_sublist.trans h

end Roster

-- An instrument that was never made has played nothing.
def Ledger.rosterOf (L : Ledger) (k : InstrumentId) : Roster := (L.roster k).getD (.new 0)

theorem Ledger.rosterOf_setRoster {L : Ledger} {k : InstrumentId} {r : Roster}
    (hk : L.roster k = some r) (f : Roster → Roster) (j : InstrumentId) :
    (L.setRoster k f).rosterOf j = if j = k then f (L.rosterOf k) else L.rosterOf j := by
  rw [rosterOf, roster_setRoster]
  split
  case isTrue => simp [rosterOf, hk]
  case isFalse => rfl

theorem Ledger.roster_of_voice {L : Ledger} {k : InstrumentId} {i : VoiceId} {node : Node}
    (hvoice : (L.rosterOf k).voice? i = some node) : ∃ r, L.roster k = some r := by
  cases hk : L.roster k with
  | none => simp [rosterOf, hk, Roster.new, Roster.voice?] at hvoice
  | some r => exact ⟨r, rfl⟩

theorem Ledger.Grows.rosterOf {L M : Ledger} (h : L.Grows M) (k : InstrumentId) :
    (L.rosterOf k).played <+: (M.rosterOf k).played := by
  rw [Ledger.rosterOf, Ledger.rosterOf]
  cases hk : L.roster k with
  | none => exact List.nil_prefix
  | some r =>
      obtain ⟨q, hq, hgrows⟩ := h.roster k r hk
      rw [hq]
      exact hgrows.played

theorem Ledger.left_release {L : Ledger} {k : InstrumentId} {i : VoiceId} {r : Roster}
    (hk : L.roster k = some r) (hi : i < (L.rosterOf k).played.length) (j : InstrumentId)
    (i' : VoiceId) : ((L.setRoster k (.release i)).rosterOf j).left i' =
      (decide (j = k ∧ i' = i) || (L.rosterOf j).left i') := by
  rw [L.rosterOf_setRoster hk]
  by_cases hj : j = k
  · subst hj
    simp [Roster.left_release _ hi, Bool.beq_eq_decide_eq]
  · simp [hj]

-- A voice is registered as long as its instrument has still to be told of the end of its node; then it
-- leaves, its node is disconnected and its end announced once.
structure Registry (m : Moment) : Prop where
  ordered : ∀ k, (m.ledger.rosterOf k).Ordered
  hears : ∀ k i id, (m.pending id).countP (·.isVoice k i) =
    if ((m.ledger.rosterOf k).voice? i).any (·.id == id) then 1 else 0
  left : ∀ k i node, (m.ledger.rosterOf k).played[i]? = some node →
    (m.ledger.rosterOf k).left i = true → (m.ledger.fate node.id).ended = true ∧
      ((m.ledger.fate node.id).cut = true ∨ .cut node ∈ m.owed)
  announced : ∀ k i, (m.ledger.rosterOf k).ended.count i + m.owed.countP (·.announces k i) =
    if (m.ledger.rosterOf k).left i then 1 else 0

namespace Registry

variable {m m' : Moment}

theorem frame (h : Registry m) (hgrows : m.ledger.Grows m'.ledger)
    (hroster : ∀ k, (m'.ledger.rosterOf k).played = (m.ledger.rosterOf k).played ∧
      (m'.ledger.rosterOf k).voices = (m.ledger.rosterOf k).voices ∧
      (m'.ledger.rosterOf k).ended = (m.ledger.rosterOf k).ended)
    (hpending : ∀ k i id, (m'.pending id).countP (·.isVoice k i) =
      (m.pending id).countP (·.isVoice k i))
    (hcut : ∀ node, .cut node ∈ m.owed →
      (m'.ledger.fate node.id).cut = true ∨ .cut node ∈ m'.owed)
    (hannounced : ∀ k i, m'.owed.countP (·.announces k i) = m.owed.countP (·.announces k i)) :
    Registry m' := by
  have hvoice (k : InstrumentId) (i : VoiceId) :
      (m'.ledger.rosterOf k).voice? i = (m.ledger.rosterOf k).voice? i := by
    simp only [Roster.voice?, (hroster k).2.1]
  have hleft (k : InstrumentId) (i : VoiceId) :
      (m'.ledger.rosterOf k).left i = (m.ledger.rosterOf k).left i := by
    simp only [Roster.left, hvoice, (hroster k).1]
  constructor
  case ordered =>
      intro k
      rw [Roster.Ordered, (hroster k).1, (hroster k).2.1]
      exact h.ordered k
  case hears =>
      intro k i id
      rw [hpending, hvoice]
      exact h.hears k i id
  case left =>
      intro k i node hnode hi
      rw [(hroster k).1] at hnode
      rw [hleft] at hi
      obtain ⟨hended, hcuts⟩ := h.left k i node hnode hi
      exact ⟨(hgrows.fate _).ended hended, hcuts.elim (.inl ∘ (hgrows.fate _).cut) (hcut node)⟩
  case announced =>
      intro k i
      rw [(hroster k).2.2, hannounced, hleft]
      exact h.announced k i

variable {L M : Ledger} {D : List Debt} {P Q : Past}

-- A debt that concerns no voice, but for the disconnection of its node.
def Quiet : Debt → Prop
  | .tell _ listener => ∀ k i, listener.isVoice k i = false
  | .announce _ _ => False
  | .finish _ | .cut _ | .cutHost _ _ => True

theorem countP_told_quiet (k : InstrumentId) (i : VoiceId) (id : NodeId) {debts : List Debt}
    (hdebts : ∀ debt ∈ debts, Quiet debt) :
    (debts.filterMap (Debt.told? id)).countP (·.isVoice k i) = 0 := by
  rw [List.countP_eq_zero]
  intro listener hlistener
  obtain ⟨debt, hdebt, htold⟩ := List.mem_filterMap.1 hlistener
  have hquiet := hdebts debt hdebt
  cases debt with
  | tell other listener' =>
      simp only [Debt.told?] at htold
      split at htold
      · cases htold
        simpa using hquiet k i
      · cases htold
  | _ => cases htold

theorem countP_announces_quiet (k : InstrumentId) (i : VoiceId) {debts : List Debt}
    (hdebts : ∀ debt ∈ debts, Quiet debt) : debts.countP (·.announces k i) = 0 := by
  rw [List.countP_eq_zero]
  intro debt hdebt
  have hquiet := hdebts debt hdebt
  cases debt with
  | announce => exact hquiet.elim
  | _ => simp [Debt.announces]

-- Quiet debts come and go, and a node that is paid for is disconnected.
theorem owe (before after : List Debt) (h : Registry ⟨L, before ++ D, P⟩) (hgrows : L.Grows M)
    (hroster : M.roster = L.roster)
    (hlisteners : ∀ id, (M.fate id).listeners = (L.fate id).listeners)
    (hbefore : ∀ debt ∈ before, Quiet debt) (hafter : ∀ debt ∈ after, Quiet debt)
    (hcut : ∀ node, .cut node ∈ before → (M.fate node.id).cut = true) :
    Registry ⟨M, after ++ D, Q⟩ := by
  refine h.frame hgrows (fun k => ?_) (fun k i id => ?_) (fun node hmem => ?_) fun k i => ?_
  · rw [Ledger.rosterOf, Ledger.rosterOf, hroster]
    exact ⟨rfl, rfl, rfl⟩
  · simp only [Moment.pending, List.filterMap_append, List.countP_append, hlisteners,
      countP_told_quiet k i id hbefore, countP_told_quiet k i id hafter]
  · exact (List.mem_append.1 hmem).imp (hcut node) (List.mem_append_right _)
  · simp only [List.countP_append, countP_announces_quiet k i hbefore,
      countP_announces_quiet k i hafter]

-- A voice is registered, and its instrument is to hear of the end of its node.
theorem register (h : Registry m) {k : InstrumentId} {r : Roster} {node : Node}
    (hk : m.ledger.roster k = some r) (hfate : ∀ id, (m'.ledger.fate id).ended =
      (m.ledger.fate id).ended ∧ (m'.ledger.fate id).cut = (m.ledger.fate id).cut)
    (hroster : m'.ledger.roster = (m.ledger.setRoster k (.play node)).roster)
    (hpending : ∀ j i id, (m'.pending id).countP (·.isVoice j i) =
      (m.pending id).countP (·.isVoice j i) +
        if id = node.id ∧ Listener.isVoice j i (.voice k r.played.length) = true then 1 else 0)
    (hcut : ∀ node, .cut node ∈ m'.owed ↔ .cut node ∈ m.owed)
    (hannounced : ∀ j i, m'.owed.countP (·.announces j i) = m.owed.countP (·.announces j i)) :
    Registry m' := by
  have hsame (j : InstrumentId) : m'.ledger.rosterOf j =
      if j = k then (m.ledger.rosterOf k).play node else m.ledger.rosterOf j := by
    rw [← m.ledger.rosterOf_setRoster hk, Ledger.rosterOf, Ledger.rosterOf, hroster]
  have hr : m.ledger.rosterOf k = r := by simp [Ledger.rosterOf, hk]
  have hordered : r.Ordered := hr ▸ h.ordered k
  have hleft (j : InstrumentId) (i : VoiceId) :
      (m'.ledger.rosterOf j).left i = (m.ledger.rosterOf j).left i := by
    rw [hsame]
    split
    case isTrue hj => rw [hj, hr, hordered.left_play]
    case isFalse => rfl
  constructor
  case ordered =>
      intro j
      rw [hsame]
      split
      case isTrue => exact hr ▸ hordered.play node
      case isFalse => exact h.ordered j
  case hears =>
      intro j i id
      rw [hpending, h.hears, hsame]
      by_cases hj : j = k
      · subst hj
        rw [if_pos rfl, hr, hordered.hears_play]
        simp [Listener.isVoice, eq_comm (a := i)]
      · simp [hj, Listener.isVoice, Ne.symm hj]
  case left =>
      intro j i other hother hi
      rw [hleft] at hi
      rw [(hfate _).1, (hfate _).2, hcut]
      refine h.left j i other ?_ hi
      rw [hsame] at hother
      split at hother
      case isFalse => exact hother
      case isTrue hj =>
          subst hj
          have hlt : i < (m.ledger.rosterOf j).played.length := by
            simp only [Roster.left, Bool.and_eq_true, decide_eq_true_eq] at hi
            exact hi.1
          rwa [Roster.play, List.getElem?_append_left hlt] at hother
  case announced =>
      intro j i
      rw [hannounced, hleft, ← h.announced, hsame]
      split
      case isTrue hj =>
          subst hj
          rfl
      case isFalse => rfl

section Release

variable {k : InstrumentId} {i : VoiceId} {id : NodeId}

-- The voice that an instrument is told of is registered, and for the node that has ended.
theorem voice_of_told (h : Registry ⟨L, .tell id (.voice k i) :: D, P⟩) :
    ∃ node, (L.rosterOf k).voice? i = some node ∧ node.id = id := by
  have hears := h.hears k i id
  rw [Moment.countP_pending_tell] at hears
  cases hvoice : (L.rosterOf k).voice? i with
  | none => simp [hvoice, Listener.isVoice] at hears
  | some node =>
      refine ⟨node, rfl, ?_⟩
      by_contra hne
      simp [hvoice, Listener.isVoice, hne] at hears

-- Nobody else tells it of that voice.
theorem pending_of_told (h : Registry ⟨L, .tell id (.voice k i) :: D, P⟩) (j : InstrumentId)
    (i' : VoiceId) (id' : NodeId) : ((Moment.mk L D P).pending id').countP (·.isVoice j i') =
      if j = k ∧ i' = i then 0
      else if ((L.rosterOf j).voice? i').any (·.id == id') then 1 else 0 := by
  obtain ⟨node, hvoice, rfl⟩ := h.voice_of_told
  have hears := h.hears j i' id'
  rw [Moment.countP_pending_tell] at hears
  by_cases hvoices : j = k ∧ i' = i
  · obtain ⟨rfl, rfl⟩ := hvoices
    by_cases hid : id' = node.id
    · simpa [hvoice, hid, Listener.isVoice] using hears
    · simpa [hvoice, hid, Ne.symm hid] using hears
  · have hother : Listener.isVoice j i' (.voice k i) = false := by
      simp only [Listener.isVoice, Bool.and_eq_false_iff, beq_eq_false_iff_ne]
      by_cases hj : j = k
      · exact .inr fun hi => hvoices ⟨hj, hi.symm⟩
      · exact .inl (Ne.symm hj)
    simpa [hvoices, hother] using hears

theorem release (h : Registry ⟨L, .tell id (.voice k i) :: D, P⟩)
    (hended : (L.fate id).ended = true) {node : Node} (hvoice : (L.rosterOf k).voice? i = some node) :
    Registry ⟨L.setRoster k (.release i), .cut node :: .announce k i :: D, P⟩ := by
  obtain ⟨other, hother, hid⟩ := h.voice_of_told
  obtain rfl : node = other := Option.some_inj.1 (hvoice.symm.trans hother)
  have hplayed := (h.ordered k).played (Roster.mem_of_voice? hvoice)
  obtain ⟨r, hk⟩ := Ledger.roster_of_voice hvoice
  have hroster (j : InstrumentId) := L.rosterOf_setRoster hk (.release i) j
  have hlt : i < (L.rosterOf k).played.length := (List.getElem?_eq_some_iff.1 hplayed).1
  have hleft := Ledger.left_release hk hlt
  constructor
  case ordered =>
      intro j
      dsimp only
      rw [hroster]
      split
      case isTrue => exact (h.ordered k).release i
      case isFalse => exact h.ordered j
  case hears =>
      intro j i' id'
      have hpending : (Moment.mk (L.setRoster k (.release i)) (.cut node :: .announce k i :: D)
          P).pending id' = (Moment.mk L D P).pending id' := by
        simp [Moment.pending, List.filterMap_cons, Debt.told?]
      dsimp only
      rw [hpending, h.pending_of_told, hroster]
      by_cases hj : j = k
      · subst hj
        by_cases hi : i' = i <;> simp [Roster.voice?_release, hi]
      · simp [hj]
  case left =>
      intro j i' node' hnode' hi'
      dsimp only at hnode' hi' ⊢
      rw [hleft] at hi'
      have hsame : (L.rosterOf j).played[i']? = some node' := by
        rw [hroster] at hnode'
        split at hnode'
        case isTrue hj => exact hj ▸ hnode'
        case isFalse => exact hnode'
      by_cases hvoices : j = k ∧ i' = i
      · obtain ⟨rfl, rfl⟩ := hvoices
        obtain rfl : node = node' := Option.some_inj.1 (hplayed.symm.trans hsame)
        exact ⟨hid ▸ hended, .inr List.mem_cons_self⟩
      · obtain ⟨hnode, hcut⟩ := h.left j i' node' hsame (by simpa [hvoices] using hi')
        refine ⟨hnode, hcut.imp_right fun hmem => ?_⟩
        simp only [List.mem_cons, reduceCtorEq, false_or] at hmem ⊢
        exact .inr hmem
  case announced =>
      intro j i'
      have hannounced := h.announced j i'
      have hsame : ((L.setRoster k (.release i)).rosterOf j).ended = (L.rosterOf j).ended := by
        rw [hroster]
        split
        case isTrue hj => exact hj ▸ rfl
        case isFalse => rfl
      simp only [hsame, hleft, List.countP_cons, Debt.announces] at hannounced ⊢
      by_cases hvoices : j = k ∧ i' = i
      · obtain ⟨rfl, rfl⟩ := hvoices
        have hnot : (L.rosterOf j).left i' = false := by simp [Roster.left, hvoice]
        simp only [hnot, Bool.false_eq_true, if_false, and_self, decide_true, Bool.true_or,
          beq_self_eq_true, Bool.and_self, if_true] at hannounced ⊢
        omega
      · have hother : (k == j && i == i') = false := by
          simp only [Bool.and_eq_false_iff, beq_eq_false_iff_ne]
          by_cases hj : j = k
          · exact .inr fun hi => hvoices ⟨hj, hi.symm⟩
          · exact .inl (Ne.symm hj)
        simpa [hvoices, hother] using hannounced

end Release

-- The end of a voice is announced once it has left.
theorem announce {k : InstrumentId} {i : VoiceId} (h : Registry ⟨L, .announce k i :: D, P⟩) :
    Registry ⟨L.setRoster k (.announce i), D, P⟩ := by
  have howed := h.announced k i
  obtain ⟨r, hk⟩ : ∃ r, L.roster k = some r := by
    cases hk : L.roster k with
    | none => simp [Ledger.rosterOf, hk, Roster.new, Roster.left, Debt.announces] at howed
    | some r => exact ⟨r, rfl⟩
  have hroster (j : InstrumentId) := L.rosterOf_setRoster hk (.announce i) j
  have hsame (j : InstrumentId) : ((L.setRoster k (.announce i)).rosterOf j).played =
      (L.rosterOf j).played ∧
      ((L.setRoster k (.announce i)).rosterOf j).voices = (L.rosterOf j).voices := by
    rw [hroster]
    split
    case isTrue hj =>
        subst hj
        exact ⟨rfl, rfl⟩
    case isFalse => exact ⟨rfl, rfl⟩
  have hvoice (j : InstrumentId) (i' : VoiceId) :
      ((L.setRoster k (.announce i)).rosterOf j).voice? i' = (L.rosterOf j).voice? i' := by
    simp only [Roster.voice?, (hsame j).2]
  have hleft (j : InstrumentId) (i' : VoiceId) :
      ((L.setRoster k (.announce i)).rosterOf j).left i' = (L.rosterOf j).left i' := by
    simp only [Roster.left, hvoice, (hsame j).1]
  constructor
  case ordered =>
      intro j
      dsimp only
      rw [Roster.Ordered, (hsame j).1, (hsame j).2]
      exact h.ordered j
  case hears =>
      intro j i' id
      dsimp only
      rw [hvoice, ← h.hears]
      simp [Moment.pending, List.filterMap_cons, Debt.told?]
  case left =>
      intro j i' node hnode hi'
      dsimp only at hnode hi'
      rw [(hsame j).1] at hnode
      rw [hleft] at hi'
      obtain ⟨hended, hcut⟩ := h.left j i' node hnode hi'
      refine ⟨hended, hcut.imp_right fun hmem => ?_⟩
      simpa using hmem
  case announced =>
      intro j i'
      have hannounced := h.announced j i'
      dsimp only at hannounced ⊢
      rw [hleft, ← hannounced, hroster, List.countP_cons]
      by_cases hj : j = k
      · subst hj
        by_cases hi : i = i'
        · simp [Roster.announce, Debt.announces, hi]
          omega
        · simp [Roster.announce, Debt.announces, hi]
      · simp [Debt.announces, hj, Ne.symm hj]

end Registry

theorem Makes.registry {N : Nat} {L M : Ledger} {D : List Debt} {P : Past} (h : Makes N L M)
    (hL : Registry ⟨L, D, P⟩) : Registry ⟨M, D, P⟩ := by
  have hgrows := h.grows
  -- All but a new node leaves the listeners alone, and all but a new instrument the rosters.
  have hframe (hroster : ∀ k, (M.rosterOf k).played = (L.rosterOf k).played ∧
        (M.rosterOf k).voices = (L.rosterOf k).voices ∧
        (M.rosterOf k).ended = (L.rosterOf k).ended)
      (hpending : ∀ k i id, ((Moment.mk M D P).pending id).countP (·.isVoice k i) =
        ((Moment.mk L D P).pending id).countP (·.isVoice k i)) : Registry ⟨M, D, P⟩ :=
    hL.frame hgrows hroster hpending (fun _ => .inr) fun _ _ => rfl
  have hsame {M : Ledger} (k : InstrumentId) (h : M.roster = L.roster) :
      (M.rosterOf k).played = (L.rosterOf k).played ∧
      (M.rosterOf k).voices = (L.rosterOf k).voices ∧
      (M.rosterOf k).ended = (L.rosterOf k).ended := by
    rw [Ledger.rosterOf, Ledger.rosterOf, h]
    exact ⟨rfl, rfl, rfl⟩
  cases h with
  | node node hfits =>
      refine hframe (fun k => hsame k rfl) fun k i id => ?_
      simp [Moment.countP_pending_enrol hfits, Listener.isVoice]
  | source node host kind hfits =>
      refine hframe (fun k => hsame k rfl) fun k i id => ?_
      have henrol := Moment.countP_pending_enrol (D := D) (P := P) hfits (·.isVoice k i) id
      rw [if_neg (by simp [Listener.isVoice])] at henrol
      exact henrol
  | instrument k c hc hk =>
      refine hframe (fun j => ?_) fun _ _ _ => rfl
      simp only [Ledger.rosterOf, Function.update_apply]
      split
      case isTrue hj =>
          subst hj
          rw [hk]
          exact ⟨rfl, rfl, rfl⟩
      case isFalse => exact ⟨rfl, rfl, rfl⟩
  | openContext | create | request | watch | builder | memo =>
      exact hframe (fun k => hsame k rfl) fun _ _ _ => rfl

theorem Move.registry {N : Nat} {m m' : Moment} (h : Move N m m') (hjoin : Join m)
    (hm : Registry m) : Registry m' := by
  have hgrows := h.grows
  cases h with
  | make h => exact h.registry hm
  | @play L D P k r node hk hnode hlive =>
      have hsame {α : Type} := (L.setRoster k (.play node)).same_setFate (α := α) node.id
        (.listen (.voice k r.played.length))
      exact hm.register hk (fun id => ⟨hsame Fate.ended rfl id, hsame Fate.cut rfl id⟩) rfl
        (fun j i id => Moment.countP_pending_listen _ _ id) (fun _ => .rfl) fun _ _ => rfl
  | playEnded k r node hk hnode hended =>
      refine hm.register hk (fun _ => ⟨rfl, rfl⟩) rfl (fun j i id => ?_) (by simp) fun _ _ => ?_
      · exact Moment.countP_pending_tell _ _ id
      · simp [Debt.announces]
  | ask node tag reply hnode hreply hlive =>
      refine hm.frame hgrows (fun _ => ⟨rfl, rfl, rfl⟩) (fun k i id => ?_) (fun _ => .inr)
        fun _ _ => rfl
      refine (Moment.countP_pending_listen _ _ id).trans ?_
      rw [if_neg (by simp [Listener.isVoice])]
      rfl
  | askEnded node tag reply hnode hended =>
      exact hm.owe [] [_] hgrows rfl (fun _ => rfl) (by simp)
        (by simp [Registry.Quiet, Listener.isVoice]) (by simp)
  | finish id node hnode hlive =>
      refine hm.frame hgrows (fun _ => ⟨rfl, rfl, rfl⟩) (fun k i j => ?_) (fun other hmem => ?_)
        fun _ _ => ?_
      · rw [Moment.pending_finish]
      · exact .inr (by simpa using hmem)
      · simp [List.countP_append, List.countP_map, Function.comp_def, Debt.announces]
  | finished id h =>
      exact hm.owe [_] [] hgrows rfl (fun _ => rfl) (by simp [Registry.Quiet]) (by simp) (by simp)
  | @member L D P id whole =>
      have hlisteners := L.same_setFate whole (.miss id) Fate.listeners rfl
      split
      · exact hm.owe [_] [_] hgrows rfl hlisteners (by simp [Registry.Quiet, Listener.isVoice])
          (by simp [Registry.Quiet]) (by simp)
      · exact hm.owe [_] [] hgrows rfl hlisteners (by simp [Registry.Quiet, Listener.isVoice])
          (by simp) (by simp)
  | release id k i r voice hk hvoice =>
      have hended := hjoin.told id _ List.mem_cons_self
      refine hm.release hended ?_
      simp [Ledger.rosterOf, hk, Roster.voice?, hvoice]
  | @released L D P id k i h =>
      obtain ⟨node, hvoice, -⟩ := hm.voice_of_told
      obtain ⟨voice, hfind, -⟩ := Option.map_eq_some_iff.1 hvoice
      rw [Ledger.rosterOf] at hfind
      cases hk : L.roster k with
      | none => simp [hk, Roster.new] at hfind
      | some r => simp [hk, h r hk] at hfind
  | call id tag reply =>
      exact hm.owe [_] [] hgrows rfl (fun _ => rfl) (by simp [Registry.Quiet, Listener.isVoice])
        (by simp) (by simp)
  | cut node hnode hcut =>
      refine hm.owe [_] node.cuts hgrows rfl (Ledger.same_setFate _ _ _ Fate.listeners rfl)
        (by simp [Registry.Quiet]) ?_ (by simp [Fate.cutOff])
      simp only [Node.cuts, List.mem_append, List.mem_map]
      rintro _ (⟨_, _, rfl⟩ | ⟨_, _, rfl⟩) <;> trivial
  | cutAgain node hcut =>
      exact hm.owe [_] [] hgrows rfl (fun _ => rfl) (by simp [Registry.Quiet]) (by simp)
        (by simpa using hcut)
  | cutHost c h =>
      exact hm.owe [_] [] hgrows rfl (fun _ => rfl) (by simp [Registry.Quiet]) (by simp) (by simp)
  | announce k i => exact hm.announce
  | due c hosts hnodup hlive =>
      refine hm.owe [] _ hgrows rfl (fun _ => rfl) (by simp) (fun debt hdebt => ?_) (by simp)
      obtain ⟨_, _, rfl⟩ := List.mem_map.1 hdebt
      trivial
  | drop node hnode =>
      exact hm.owe [] [_] hgrows rfl (fun _ => rfl) (by simp) (by simp [Registry.Quiet]) (by simp)
  | dropHost c h hhost =>
      exact hm.owe [] [_] hgrows rfl (fun _ => rfl) (by simp) (by simp [Registry.Quiet]) (by simp)

theorem Moves.registry {N : Nat} {m m' : Moment} (h : Moves N m m') (hjoin : Join m)
    (hm : Registry m) : Registry m' := by
  induction h with
  | refl => exact hm
  | tail hs h ih => exact h.registry (Moves.join hs hjoin) ih

end Patchbay
