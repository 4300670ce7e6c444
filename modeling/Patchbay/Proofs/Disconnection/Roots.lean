import Patchbay.Proofs.Voices.Registry

namespace Patchbay

def Moment.IsRoot (m : Moment) (node : Node) : Prop :=
  node ∈ m.past.dropped ∨ ∃ k i, (m.ledger.rosterOf k).played[i]? = some node ∧
    (m.ledger.rosterOf k).left i = true

def Moment.Reached (m : Moment) (node : Node) : Prop := ∃ root, m.IsRoot root ∧ node ∈ root.reach

-- The node is disconnected, or about to be.
def Moment.Cutting (m : Moment) (node : Node) : Prop :=
  (m.ledger.fate node.id).cut = true ∨ .cut node ∈ m.owed

def Ledger.HostCut (L : Ledger) (c : ContextId) (h : HostId) : Prop :=
  (L.host c h).any HostFate.cut = true

def Moment.CuttingHost (m : Moment) (c : ContextId) (h : HostId) : Prop :=
  m.ledger.HostCut c h ∨ .cutHost c h ∈ m.owed

-- The roots are the nodes that callers had disconnected and those of the voices that have left. All
-- that a root reaches is disconnected, or owed, and nothing else is.
structure Cuts (m : Moment) : Prop where
  roots : ∀ node, m.IsRoot node → m.Cutting node
  known : ∀ node ∈ m.past.dropped, m.ledger.Knows node
  parts : ∀ node, m.ledger.Knows node → (m.ledger.fate node.id).cut = true →
    ∀ part ∈ node.parts, m.Cutting part
  hosts : ∀ node, m.ledger.Knows node → (m.ledger.fate node.id).cut = true →
    ∀ host ∈ node.cutHosts, m.CuttingHost node.context host
  silenced : ∀ c h, (c, h) ∈ m.past.silenced → m.CuttingHost c h
  there : ∀ c h, .cutHost c h ∈ m.owed → m.ledger.HasHost c h
  -- Only what a root reaches.
  reached : ∀ node, m.ledger.Knows node → (m.ledger.fate node.id).cut = true → m.Reached node
  owed : ∀ node, .cut node ∈ m.owed → m.Reached node
  reachedHost : ∀ c h, m.CuttingHost c h → (c, h) ∈ m.past.silenced ∨
    ∃ node, m.Reached node ∧ node.context = c ∧ h ∈ node.cutHosts

namespace Cuts

variable {m m' : Moment}

-- What is cut stays so, and what is new comes with a root, or is what one reaches.
theorem advance (h : Cuts m) (hgrows : m.ledger.Grows m'.ledger)
    (hroots : ∀ node, m.IsRoot node → m'.IsRoot node)
    (hnewRoots : ∀ node, m'.IsRoot node → m.IsRoot node ∨ m'.Cutting node)
    (hknown : ∀ node ∈ m'.past.dropped, node ∈ m.past.dropped ∨ m'.ledger.Knows node)
    (hcutting : ∀ node, m.Cutting node → m'.Cutting node)
    (hcuttingHost : ∀ c h, m.CuttingHost c h → m'.CuttingHost c h)
    (hcut : ∀ node, m'.ledger.Knows node → (m'.ledger.fate node.id).cut = true →
      m.ledger.Knows node ∧ (m.ledger.fate node.id).cut = true ∨
      m'.Reached node ∧ (∀ part ∈ node.parts, m'.Cutting part) ∧
        ∀ host ∈ node.cutHosts, m'.CuttingHost node.context host)
    (hsilenced : ∀ c h, (c, h) ∈ m.past.silenced → (c, h) ∈ m'.past.silenced)
    (hnewSilenced : ∀ c h, (c, h) ∈ m'.past.silenced → (c, h) ∈ m.past.silenced ∨ m'.CuttingHost c h)
    (hthere : ∀ c h, .cutHost c h ∈ m'.owed → .cutHost c h ∈ m.owed ∨ m'.ledger.HasHost c h)
    (howed : ∀ node, .cut node ∈ m'.owed → .cut node ∈ m.owed ∨ m'.Reached node)
    (hreachedHost : ∀ c h, m'.CuttingHost c h → m.CuttingHost c h ∨ (c, h) ∈ m'.past.silenced ∨
      ∃ node, m'.Reached node ∧ node.context = c ∧ h ∈ node.cutHosts) : Cuts m' := by
  have hreached {node : Node} (hnode : m.Reached node) : m'.Reached node := by
    obtain ⟨root, hroot, hreach⟩ := hnode
    exact ⟨root, hroots root hroot, hreach⟩
  constructor
  case roots =>
      intro node hroot
      exact (hnewRoots node hroot).elim (hcutting node ∘ h.roots node) id
  case known =>
      intro node hmem
      exact (hknown node hmem).elim (fun hold => (h.known node hold).grow hgrows) id
  case parts =>
      intro node hnode hid part hpart
      rcases hcut node hnode hid with ⟨hold, hid⟩ | ⟨-, hparts, -⟩
      · exact hcutting part (h.parts node hold hid part hpart)
      · exact hparts part hpart
  case hosts =>
      intro node hnode hid host hmem
      rcases hcut node hnode hid with ⟨hold, hid⟩ | ⟨-, -, hhosts⟩
      · exact hcuttingHost _ host (h.hosts node hold hid host hmem)
      · exact hhosts host hmem
  case silenced =>
      intro c host hmem
      exact (hnewSilenced c host hmem).elim (hcuttingHost c host ∘ h.silenced c host) id
  case there =>
      intro c host hmem
      exact (hthere c host hmem).elim (fun hold => (h.there c host hold).grow hgrows) id
  case reached =>
      intro node hnode hid
      rcases hcut node hnode hid with ⟨hold, hid⟩ | ⟨hnew, -, -⟩
      · exact hreached (h.reached node hold hid)
      · exact hnew
  case owed =>
      intro node hmem
      exact (howed node hmem).elim (hreached ∘ h.owed node) id
  case reachedHost =>
      intro c host hhost
      rcases hreachedHost c host hhost with hold | hnew
      · refine (h.reachedHost c host hold).imp (hsilenced c host) ?_
        rintro ⟨node, hnode, rfl, hown⟩
        exact ⟨node, hreached hnode, rfl, hown⟩
      · exact hnew

-- Nothing is cut, and nothing is to be.
theorem frame (h : Cuts m) (hgrows : m.ledger.Grows m'.ledger)
    (hroots : ∀ node, m'.IsRoot node ↔ m.IsRoot node)
    (hdropped : m'.past.dropped = m.past.dropped) (hsilenced : m'.past.silenced = m.past.silenced)
    (hcut : ∀ id, (m'.ledger.fate id).cut = (m.ledger.fate id).cut)
    (hnode : ∀ id, (m.ledger.fate id).cut = true →
      (m'.ledger.fate id).node = (m.ledger.fate id).node)
    (howed : ∀ node, .cut node ∈ m'.owed ↔ .cut node ∈ m.owed)
    (howedHost : ∀ c h, .cutHost c h ∈ m'.owed ↔ .cutHost c h ∈ m.owed)
    (hhost : ∀ c h, m'.ledger.HostCut c h ↔ m.ledger.HostCut c h) : Cuts m' := by
  have hcutting (node : Node) : m'.Cutting node ↔ m.Cutting node := by
    rw [Moment.Cutting, Moment.Cutting, hcut, howed]
  have hcuttingHost (c : ContextId) (h : HostId) : m'.CuttingHost c h ↔ m.CuttingHost c h := by
    rw [Moment.CuttingHost, Moment.CuttingHost, hhost, howedHost]
  refine h.advance hgrows (fun node => (hroots node).2) (fun node => .inl ∘ (hroots node).1)
    (fun _ hmem => .inl (hdropped ▸ hmem)) (fun node => (hcutting node).2)
    (fun c host => (hcuttingHost c host).2) (fun node hnew hid => .inl ?_)
    (fun _ _ hmem => hsilenced ▸ hmem) (fun _ _ hmem => .inl (hsilenced ▸ hmem))
    (fun c host => .inl ∘ (howedHost c host).1) (fun node => .inl ∘ (howed node).1)
    fun c host => .inl ∘ (hcuttingHost c host).1
  rw [hcut] at hid
  rw [Ledger.Knows, hnode _ hid] at hnew
  exact ⟨hnew, hid⟩

variable {L M : Ledger} {D E : List Debt} {P Q : Past}

theorem isRoot_of_roster (hplayed : ∀ k, (M.rosterOf k).played = (L.rosterOf k).played)
    (hvoices : ∀ k, (M.rosterOf k).voices = (L.rosterOf k).voices) (hdropped : Q.dropped = P.dropped)
    (node : Node) : (Moment.mk M E Q).IsRoot node ↔ (Moment.mk L D P).IsRoot node := by
  simp only [Moment.IsRoot, Roster.left, Roster.voice?, hplayed, hvoices, hdropped]

-- What is just played has not left.
theorem isRoot_play {k : InstrumentId} {r : Roster} (hk : L.roster k = some r) (hordered : r.Ordered)
    (played node : Node) : (Moment.mk (L.setRoster k (.play played)) E P).IsRoot node ↔
      (Moment.mk L D P).IsRoot node := by
  have hr : L.rosterOf k = r := by simp [Ledger.rosterOf, hk]
  have hsame (j : InstrumentId) (i : VoiceId) :
      ((L.setRoster k (.play played)).rosterOf j).left i = (L.rosterOf j).left i := by
    rw [L.rosterOf_setRoster hk]
    split
    case isTrue hj => rw [hj, hr, hordered.left_play]
    case isFalse => rfl
  have hat (j : InstrumentId) (i : VoiceId) (hi : (L.rosterOf j).left i = true) :
      ((L.setRoster k (.play played)).rosterOf j).played[i]? = (L.rosterOf j).played[i]? := by
    have hlt : i < (L.rosterOf j).played.length := by
      simp only [Roster.left, Bool.and_eq_true, decide_eq_true_eq] at hi
      exact hi.1
    rw [L.rosterOf_setRoster hk]
    split
    case isTrue hj =>
        subst hj
        rw [Roster.play, List.getElem?_append_left hlt]
    case isFalse => rfl
  refine or_congr_right (exists_congr fun j => exists_congr fun i => ?_)
  rw [hsame]
  exact and_congr_left fun hi => by rw [hat j i hi]

theorem isRoot_release {k : InstrumentId} {i : VoiceId} {voice : Node}
    (hvoice : (L.rosterOf k).voice? i = some voice)
    (hplayed : (L.rosterOf k).played[i]? = some voice) (node : Node) :
    (Moment.mk (L.setRoster k (.release i)) E P).IsRoot node ↔
      (Moment.mk L D P).IsRoot node ∨ node = voice := by
  obtain ⟨r, hk⟩ := Ledger.roster_of_voice hvoice
  have hlt := (List.getElem?_eq_some_iff.1 hplayed).1
  have hsame (j : InstrumentId) : ((L.setRoster k (.release i)).rosterOf j).played =
      (L.rosterOf j).played := by
    rw [L.rosterOf_setRoster hk]
    split
    case isTrue hj => exact hj ▸ rfl
    case isFalse => rfl
  simp only [Moment.IsRoot, hsame, Ledger.left_release hk hlt, Bool.or_eq_true, decide_eq_true_eq]
  constructor
  · rintro (hmem | ⟨j, i', hnode, ⟨rfl, rfl⟩ | hleft⟩)
    · exact .inl (.inl hmem)
    · exact .inr (Option.some_inj.1 (hnode.symm.trans hplayed))
    · exact .inl (.inr ⟨j, i', hnode, hleft⟩)
  · rintro ((hmem | ⟨j, i', hnode, hleft⟩) | rfl)
    · exact .inl hmem
    · exact .inr ⟨j, i', hnode, .inr hleft⟩
    · exact .inr ⟨k, i, hplayed, .inl ⟨rfl, rfl⟩⟩

-- All that a node reaches is disconnected with it.
theorem cut_of_reach {N : Nat} (h : Cuts m) (hsound : m.ledger.Sound N) (hdone : m.owed = [])
    {node inner : Node} (hnode : m.ledger.Knows node)
    (hcut : (m.ledger.fate node.id).cut = true) (hinner : inner ∈ node.reach) :
    (m.ledger.fate inner.id).cut = true := by
  induction node using Node.induct with
  | step node ih =>
      rcases Node.mem_reach.1 hinner with rfl | ⟨part, hpart, hreach⟩
      · exact hcut
      · have hknown := ((hsound.formed hnode).parts part hpart).1
        have hpartcut := h.parts node hnode hcut part hpart
        rw [Moment.Cutting, hdone] at hpartcut
        exact ih part hpart hknown (hpartcut.resolve_right List.not_mem_nil) hreach

theorem knows_root {N : Nat} (h : Cuts m) (hsound : m.ledger.Sound N) {root : Node}
    (hroot : m.IsRoot root) : m.ledger.Knows root := by
  rcases hroot with hroot | ⟨k, i, hroot, -⟩
  · exact h.known root hroot
  · rw [Ledger.rosterOf] at hroot
    cases hk : m.ledger.roster k with
    | none => simp [hk, Roster.new] at hroot
    | some r =>
        rw [hk] at hroot
        exact (hsound.roster k r hk).played root (List.mem_of_getElem? hroot)

theorem cut_iff {N : Nat} (h : Cuts m) (hsound : m.ledger.Sound N) (hdone : m.owed = [])
    {node : Node} (hnode : m.ledger.Knows node) :
    (m.ledger.fate node.id).cut = true ↔ m.Reached node := by
  refine ⟨h.reached node hnode, ?_⟩
  rintro ⟨root, hroot, hreach⟩
  have hcut := h.roots root hroot
  rw [Moment.Cutting, hdone] at hcut
  exact h.cut_of_reach hsound hdone (h.knows_root hsound hroot)
    (hcut.resolve_right List.not_mem_nil) hreach

-- The final output is the only host node that a root reaches and leaves as it is.
theorem hostCut_iff {N : Nat} (h : Cuts m) (hsound : m.ledger.Sound N) (hdone : m.owed = [])
    (c : ContextId) (host : HostId) : m.ledger.HostCut c host ↔ (c, host) ∈ m.past.silenced ∨
      host ≠ Engine.destination ∧ ∃ root, m.IsRoot root ∧ (c, host) ∈ root.hosts := by
  have hcutting : m.CuttingHost c host ↔ m.ledger.HostCut c host := by
    rw [Moment.CuttingHost, hdone]
    exact or_iff_left List.not_mem_nil
  constructor
  · intro hhost
    refine (h.reachedHost c host (hcutting.2 hhost)).imp_right ?_
    rintro ⟨node, ⟨root, hroot, hreach⟩, rfl, hown⟩
    have hknown := hsound.knows_of_reach (h.knows_root hsound hroot) hreach
    refine ⟨?_, root, hroot, Node.mem_hosts.2 ⟨node, hreach, rfl, Node.mem_ownHosts_of_cut hown⟩⟩
    rintro rfl
    exact (hsound.formed hknown).spares hown
  · rintro (hmem | ⟨hne, root, hroot, hmem⟩)
    · exact hcutting.1 (h.silenced c host hmem)
    · obtain ⟨node, hreach, rfl, hown⟩ := Node.mem_hosts.1 hmem
      have hknown := hsound.knows_of_reach (h.knows_root hsound hroot) hreach
      have hcut := (h.cut_iff hsound hdone hknown).2 ⟨root, hroot, hreach⟩
      exact hcutting.1 (h.hosts node hknown hcut host (Node.mem_cutHosts_of_own hown hne))

theorem cut {N : Nat} {node : Node} (h : Cuts ⟨L, .cut node :: D, P⟩) (hsound : L.Sound N)
    (hnode : L.Knows node) : Cuts ⟨L.setFate node.id .cutOff, node.cuts ++ D, P⟩ := by
  have hself : ((L.setFate node.id .cutOff).fate node.id).cut = true := by simp [Fate.cutOff]
  have hreached := h.owed node List.mem_cons_self
  have hparts (part : Node) (hpart : part ∈ node.parts) : .cut part ∈ node.cuts :=
    List.mem_append_right _ (List.mem_map_of_mem hpart)
  have hhosts (host : HostId) (hhost : host ∈ node.cutHosts) :
      .cutHost node.context host ∈ node.cuts :=
    List.mem_append_left _ (List.mem_map_of_mem hhost)
  have hcutPart {part : Node} (hmem : .cut part ∈ node.cuts) : part ∈ node.parts := by
    simpa [Node.cuts] using hmem
  have hcutHost {c : ContextId} {host : HostId} (hmem : .cutHost c host ∈ node.cuts) :
      c = node.context ∧ host ∈ node.cutHosts := by
    simp only [Node.cuts, List.mem_append, List.mem_map, Debt.cutHost.injEq, reduceCtorEq,
      and_false, exists_false, or_false] at hmem
    obtain ⟨_, hmem, rfl, rfl⟩ := hmem
    exact ⟨rfl, hmem⟩
  refine h.advance (Ledger.grows_setFate _ _ (Fate.grows_cutOff _)) (fun _ hroot => hroot)
    (fun _ => .inl) (fun _ => .inl) (fun other hother => ?_) (fun c host hhost => ?_)
    (fun other hother hid => ?_) (fun _ _ hmem => hmem) (fun _ _ => .inl) (fun c host hmem => ?_)
    (fun other hmem => ?_) fun c host hhost => ?_
  · rcases hother with hother | hother
    · exact .inl ((Ledger.grows_setFate _ _ (Fate.grows_cutOff _)).fate _ |>.cut hother)
    · rcases List.mem_cons.1 hother with heq | hother
      · cases heq
        exact .inl hself
      · exact .inr (List.mem_append_right _ hother)
  · refine hhost.imp_right fun hmem => List.mem_append_right _ ?_
    simpa using hmem
  · by_cases hid' : other.id = node.id
    · obtain rfl : node = other := by
        rw [Ledger.Knows, L.same_setFate node.id .cutOff Fate.node rfl, hid', hnode] at hother
        exact Option.some_inj.1 hother
      exact .inr ⟨hreached, fun part hpart => .inr (List.mem_append_left _ (hparts part hpart)),
        fun host hhost => .inr (List.mem_append_left _ (hhosts host hhost))⟩
    · rw [Ledger.Knows, Ledger.fate_setFate, if_neg hid'] at hother
      rw [Ledger.fate_setFate, if_neg hid'] at hid
      exact .inl ⟨hother, hid⟩
  · rcases List.mem_append.1 hmem with hmem | hmem
    · obtain ⟨rfl, hown⟩ := hcutHost hmem
      exact .inr ((hsound.formed hnode).hosts host (Node.mem_ownHosts_of_cut hown))
    · exact .inl (List.mem_cons_of_mem _ hmem)
  · rcases List.mem_append.1 hmem with hmem | hmem
    · obtain ⟨root, hroot, hreach⟩ := hreached
      exact .inr ⟨root, hroot, Node.reach_trans (Node.part_mem_reach (hcutPart hmem)) hreach⟩
    · exact .inl (List.mem_cons_of_mem _ hmem)
  · rcases hhost with hhost | hmem
    · exact .inl (.inl hhost)
    · rcases List.mem_append.1 hmem with hmem | hmem
      · obtain ⟨rfl, hown⟩ := hcutHost hmem
        exact .inr (.inr ⟨node, hreached, rfl, hown⟩)
      · exact .inl (.inr (List.mem_cons_of_mem _ hmem))

theorem cutAgain {node : Node} (h : Cuts ⟨L, .cut node :: D, P⟩)
    (hcut : (L.fate node.id).cut = true) : Cuts ⟨L, D, P⟩ := by
  refine h.advance (.refl _) (fun _ hroot => hroot) (fun _ => .inl) (fun _ => .inl)
    (fun other hother => ?_) (fun c host hhost => ?_) (fun other hother hid => .inl ⟨hother, hid⟩)
    (fun _ _ hmem => hmem) (fun _ _ => .inl) (fun c host hmem => .inl (List.mem_cons_of_mem _ hmem))
    (fun other hmem => .inl (List.mem_cons_of_mem _ hmem)) fun c host hhost => .inl ?_
  · rcases hother with hother | hother
    · exact .inl hother
    · rcases List.mem_cons.1 hother with heq | hother
      · cases heq
        exact .inl hcut
      · exact .inr hother
  · exact hhost.imp_right fun hmem => by simpa using hmem
  · exact hhost.imp_right (List.mem_cons_of_mem _)

theorem cutHost {c : ContextId} {host : HostId} (h : Cuts ⟨L, .cutHost c host :: D, P⟩) :
    Cuts ⟨L.setHost c host .cutOff, D, P⟩ := by
  have hgrows := L.grows_setHost c host HostFate.grows_cutOff
  have hcut {c' : ContextId} {host' : HostId} : (L.setHost c host .cutOff).HostCut c' host' ↔
      L.HostCut c' host' ∨ c' = c ∧ host' = host := by
    rw [Ledger.HostCut, Ledger.HostCut, Ledger.host_setHost]
    split
    case isTrue hch =>
        obtain ⟨rfl, rfl⟩ := hch
        obtain ⟨fate, hfate⟩ := Option.isSome_iff_exists.1 (h.there c' host' List.mem_cons_self)
        dsimp only at hfate
        simp [hfate, HostFate.cutOff]
    case isFalse hch => simp [hch]
  refine h.advance hgrows (fun _ hroot => hroot) (fun _ => .inl) (fun _ => .inl)
    (fun other hother => ?_) (fun c' host' hhost => ?_)
    (fun other hother hid => .inl ⟨hother, hid⟩) (fun _ _ hmem => hmem) (fun _ _ => .inl)
    (fun c' host' hmem => .inl (List.mem_cons_of_mem _ hmem))
    (fun other hmem => .inl (List.mem_cons_of_mem _ hmem)) fun c' host' hhost => .inl ?_
  · exact hother.imp_right fun hmem => by simpa using hmem
  · rcases hhost with hhost | hmem
    · exact .inl (hcut.2 (.inl hhost))
    · rcases List.mem_cons.1 hmem with heq | hmem
      · cases heq
        exact .inl (hcut.2 (.inr ⟨rfl, rfl⟩))
      · exact .inr hmem
  · rcases hhost with hhost | hmem
    · rcases hcut.1 hhost with hhost | ⟨rfl, rfl⟩
      · exact .inl hhost
      · exact .inr List.mem_cons_self
    · exact .inr (List.mem_cons_of_mem _ hmem)

-- A node becomes a root, and is to be cut.
theorem root {node : Node} (h : Cuts ⟨L, D, P⟩) (hgrows : L.Grows M) (hnode : M.Knows node)
    (hroots : ∀ other, (Moment.mk M E Q).IsRoot other ↔ (Moment.mk L D P).IsRoot other ∨ other = node)
    (hdropped : ∀ other ∈ Q.dropped, other ∈ P.dropped ∨ other = node)
    (hsilenced : Q.silenced = P.silenced) (hfate : M.fate = L.fate) (hhost : M.host = L.host)
    (howed : ∀ other, .cut other ∈ E ↔ other = node ∨ .cut other ∈ D)
    (howedHost : ∀ c host, .cutHost c host ∈ E ↔ .cutHost c host ∈ D) : Cuts ⟨M, E, Q⟩ := by
  have hcutting (other : Node) :
      (Moment.mk M E Q).Cutting other ↔ (Moment.mk L D P).Cutting other ∨ other = node := by
    simp only [Moment.Cutting, hfate, howed]
    tauto
  have hcuttingHost (c : ContextId) (host : HostId) :
      (Moment.mk M E Q).CuttingHost c host ↔ (Moment.mk L D P).CuttingHost c host := by
    simp only [Moment.CuttingHost, Ledger.HostCut, hhost, howedHost]
  refine h.advance hgrows (fun other hroot => (hroots other).2 (.inl hroot))
    (fun other hroot => ((hroots other).1 hroot).imp_right fun heq => (hcutting other).2 (.inr heq))
    (fun other hmem => (hdropped other hmem).imp_right fun heq => by rwa [heq])
    (fun other hother => (hcutting other).2 (.inl hother))
    (fun c host => (hcuttingHost c host).2) (fun other hother hid => .inl ?_)
    (fun _ _ hmem => hsilenced ▸ hmem) (fun _ _ hmem => .inl (hsilenced ▸ hmem))
    (fun c host => .inl ∘ (howedHost c host).1) (fun other hmem => ?_)
    fun c host => .inl ∘ (hcuttingHost c host).1
  · rw [Ledger.Knows] at hother
    dsimp only at hother hid
    rw [hfate] at hother hid
    exact ⟨hother, hid⟩
  · rcases (howed other).1 hmem with rfl | hmem
    · exact .inr ⟨other, (hroots other).2 (.inr rfl), Node.self_mem_reach other⟩
    · exact .inl hmem

theorem silence {c : ContextId} {host : HostId} (h : Cuts ⟨L, D, P⟩) (hhost : L.HasHost c host) :
    Cuts ⟨L, .cutHost c host :: D, { P with silenced := P.silenced ++ [(c, host)] }⟩ := by
  refine h.advance (.refl _) (fun _ hroot => hroot) (fun _ => .inl) (fun _ => .inl)
    (fun other hother => hother.imp_right (List.mem_cons_of_mem _))
    (fun c' host' hmem => hmem.imp_right (List.mem_cons_of_mem _))
    (fun other hother hid => .inl ⟨hother, hid⟩) (fun _ _ => List.mem_append_left _)
    (fun c' host' hmem => ?_) (fun c' host' hmem => ?_) (fun other hmem => ?_)
    fun c' host' hmem => ?_
  · rcases List.mem_append.1 hmem with hmem | hmem
    · exact .inl hmem
    · cases List.mem_singleton.1 hmem
      exact .inr (.inr List.mem_cons_self)
  · rcases List.mem_cons.1 hmem with heq | hmem
    · cases heq
      exact .inr hhost
    · exact .inl hmem
  · exact .inl (by simpa using hmem)
  · rcases hmem with hmem | hmem
    · exact .inl (.inl hmem)
    · rcases List.mem_cons.1 hmem with heq | hmem
      · cases heq
        exact .inr (.inl (List.mem_append_right _ List.mem_cons_self))
      · exact .inl (.inr hmem)

end Cuts

theorem Ledger.Fits.cut_enrol {N : Nat} {L : Ledger} {node : Node} (hfits : L.Fits N node)
    (id : NodeId) : ((L.enrol node).fate id).cut = (L.fate id).cut := by
  by_cases hid : id = node.id
  · rw [hid, L.fate_enrol_self, hfits.absent]
    rfl
  · exact L.same_enrol Fate.cut (fun _ => rfl) hid

theorem Ledger.Fits.node_enrol_of_cut {N : Nat} {L : Ledger} {node : Node} (hfits : L.Fits N node)
    {id : NodeId} (hcut : (L.fate id).cut = true) :
    ((L.enrol node).fate id).node = (L.fate id).node := by
  refine L.same_enrol Fate.node (fun _ => rfl) ?_
  rintro rfl
  rw [hfits.absent] at hcut
  cases hcut

theorem Ledger.rosterOf_instrument {L : Ledger} {k : InstrumentId} (hk : L.roster k = none)
    (c : ContextId) (j : InstrumentId) :
    (({ L with roster := Function.update L.roster k (some (.new c)) } : Ledger).rosterOf j).played =
        (L.rosterOf j).played ∧
      (({ L with roster := Function.update L.roster k (some (.new c)) } : Ledger).rosterOf j).voices =
        (L.rosterOf j).voices := by
  simp only [Ledger.rosterOf, Function.update_apply]
  split
  case isTrue hj =>
      rw [hj, hk]
      exact ⟨rfl, rfl⟩
  case isFalse => exact ⟨rfl, rfl⟩

theorem Makes.cuts {N : Nat} {L M : Ledger} {D : List Debt} {P : Past} (h : Makes N L M)
    (hL : Cuts ⟨L, D, P⟩) : Cuts ⟨M, D, P⟩ := by
  have hgrows := h.grows
  -- Nothing that is made is disconnected yet.
  have hframe (hroster : ∀ k, (M.rosterOf k).played = (L.rosterOf k).played ∧
        (M.rosterOf k).voices = (L.rosterOf k).voices)
      (hcut : ∀ id, (M.fate id).cut = (L.fate id).cut)
      (hnode : ∀ id, (L.fate id).cut = true → (M.fate id).node = (L.fate id).node)
      (hhost : ∀ c h, M.HostCut c h ↔ L.HostCut c h) : Cuts ⟨M, D, P⟩ :=
    hL.frame hgrows
      (Cuts.isRoot_of_roster (fun k => (hroster k).1) (fun k => (hroster k).2) rfl) rfl rfl hcut hnode
      (fun _ => .rfl) (fun _ _ => .rfl) hhost
  let part (fate? : Option HostFate) : Prop := fate?.any HostFate.cut = true
  cases h with
  | openContext hnone =>
      exact hframe (fun _ => ⟨rfl, rfl⟩) (fun _ => rfl) (fun _ _ => rfl) fun c h =>
        iff_of_eq (L.same_openContext part hnone rfl c h)
  | create c h kind hc hh =>
      exact hframe (fun _ => ⟨rfl, rfl⟩) (fun _ => rfl) (fun _ _ => rfl) fun c' h' =>
        iff_of_eq (L.same_create part hh rfl c' h')
  | request c request =>
      refine hframe (fun _ => ⟨rfl, rfl⟩) (fun _ => rfl) (fun _ _ => rfl) fun c' h' =>
        iff_of_eq (L.same_setHost c request.host request.mark part ?_ c' h')
      cases request <;> exact fun _ => rfl
  | watch c h tag =>
      exact hframe (fun _ => ⟨rfl, rfl⟩) (fun _ => rfl) (fun _ _ => rfl) fun c' h' =>
        iff_of_eq (L.same_setHost c h (.watch (.tag tag)) part (fun _ => rfl) c' h')
  | node node hfits =>
      exact hframe (fun _ => ⟨rfl, rfl⟩) hfits.cut_enrol (fun _ => hfits.node_enrol_of_cut)
        fun _ _ => .rfl
  | source node host kind hfits =>
      exact hframe (fun _ => ⟨rfl, rfl⟩) hfits.cut_enrol (fun _ => hfits.node_enrol_of_cut)
        fun c' h' => iff_of_eq ((L.enrol node).same_setHost node.context host
          (.watch (.node node.id)) part (fun _ => rfl) c' h')
  | builder | memo =>
      exact hframe (fun _ => ⟨rfl, rfl⟩) (fun _ => rfl) (fun _ _ => rfl) fun _ _ => .rfl
  | instrument k c hc hk =>
      exact hframe (Ledger.rosterOf_instrument hk c) (fun _ => rfl) (fun _ _ => rfl) fun _ _ => .rfl

theorem Move.cuts {N : Nat} {m m' : Moment} (h : Move N m m') (hsound : m.ledger.Sound N)
    (hregistry : Registry m) (hm : Cuts m) : Cuts m' := by
  have hgrows := h.grows
  cases h with
  | make h => exact h.cuts hm
  | @play L D P k r node hk hnode hlive =>
      have hordered : r.Ordered := by
        have hordered := hregistry.ordered k
        rwa [Ledger.rosterOf, hk] at hordered
      have hsame {α : Type} := (L.setRoster k (.play node)).same_setFate (α := α) node.id
        (.listen (.voice k r.played.length))
      have hroots := Cuts.isRoot_play (D := D) (E := D) (P := P) hk hordered node
      exact hm.frame hgrows hroots rfl rfl (hsame Fate.cut rfl)
        (fun id _ => hsame Fate.node rfl id) (fun _ => .rfl) (fun _ _ => .rfl) fun _ _ => .rfl
  | @playEnded L D P k r node hk hnode hended =>
      have hordered : r.Ordered := by
        have hordered := hregistry.ordered k
        rwa [Ledger.rosterOf, hk] at hordered
      exact hm.frame hgrows (Cuts.isRoot_play hk hordered node) rfl rfl (fun _ => rfl)
        (fun _ _ => rfl) (by simp) (by simp) fun _ _ => .rfl
  | @release L D P id k i r voice hk hvoice =>
      have hregistered : (L.rosterOf k).voice? i = some voice.1 := by
        simp [Ledger.rosterOf, hk, Roster.voice?, hvoice]
      have hplayed := (hregistry.ordered k).played (Roster.mem_of_voice? hregistered)
      have hknown := (hsound.roster k r hk).voices voice (List.mem_of_find?_eq_some hvoice)
      exact hm.root hgrows (hknown.grow hgrows) (Cuts.isRoot_release hregistered hplayed)
        (fun _ => .inl) rfl rfl rfl (by simp) (by simp)
  | cut node hnode hcut => exact hm.cut hsound hnode
  | cutAgain node hcut => exact hm.cutAgain hcut
  | cutHost c h => exact hm.cutHost
  | @announce L D P k i =>
      have hsame (j : InstrumentId) : ((L.setRoster k (.announce i)).rosterOf j).played =
          (L.rosterOf j).played ∧
          ((L.setRoster k (.announce i)).rosterOf j).voices = (L.rosterOf j).voices := by
        rw [Ledger.rosterOf, Ledger.rosterOf, Ledger.roster_setRoster]
        split
        case isTrue hj =>
            subst hj
            cases L.roster j <;> exact ⟨rfl, rfl⟩
        case isFalse => exact ⟨rfl, rfl⟩
      have hroots := Cuts.isRoot_of_roster (D := .announce k i :: D) (E := D) (P := P) (Q := P)
        (fun j => (hsame j).1) (fun j => (hsame j).2) rfl
      exact hm.frame hgrows hroots rfl rfl (fun _ => rfl) (fun _ _ => rfl) (by simp) (by simp)
        fun _ _ => .rfl
  | @due L D P c hosts hnodup hlive =>
      refine hm.frame hgrows (fun _ => .rfl) rfl rfl (fun _ => rfl) (fun _ _ => rfl) (by simp)
        (by simp) fun c' h => ?_
      exact iff_of_eq (L.same_closeHosts (·.any HostFate.cut = true) (fun _ => rfl) c hosts c' h)
  | @finish L D P id node hnode hlive =>
      have hsame {α : Type} := L.same_setFate (α := α) id .close
      exact hm.frame hgrows (fun _ => .rfl) rfl rfl (hsame Fate.cut rfl)
        (fun j _ => hsame Fate.node rfl j) (by simp) (by simp) fun _ _ => .rfl
  | @member L D P id whole =>
      have hsame {α : Type} := L.same_setFate (α := α) whole (.miss id)
      refine hm.frame hgrows (fun _ => .rfl) rfl rfl (hsame Fate.cut rfl)
        (fun j _ => hsame Fate.node rfl j) (fun _ => ?_) (fun _ _ => ?_) fun _ _ => .rfl
      · split <;> simp
      · split <;> simp
  | @ask L D P node tag reply hnode hreply hlive =>
      have hsame {α : Type} := (L.ask node.id tag).same_setFate (α := α) node.id
        (.listen (.caller tag reply))
      exact hm.frame hgrows (fun _ => .rfl) rfl rfl (hsame Fate.cut rfl)
        (fun j _ => hsame Fate.node rfl j) (fun _ => .rfl) (fun _ _ => .rfl) fun _ _ => .rfl
  | askEnded | finished | released | call =>
      exact hm.frame hgrows (fun _ => .rfl) rfl rfl (fun _ => rfl) (fun _ _ => rfl) (by simp)
        (by simp) fun _ _ => .rfl
  | drop node hnode =>
      refine hm.root (.refl _) hnode (fun other => ?_) (by simp) rfl rfl rfl (by simp) (by simp)
      simp only [Moment.IsRoot, List.mem_append, List.mem_singleton]
      exact or_right_comm
  | dropHost c h hhost => exact hm.silence hhost

end Patchbay
