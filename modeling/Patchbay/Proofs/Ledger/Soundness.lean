import Patchbay.Proofs.Ledger.Entries

namespace Patchbay.Ledger

-- A node with all that it is made of in place.
structure Formed (L : Ledger) (node : Node) : Prop where
  below : node.id < L.size
  opened : node.context < L.contexts
  parts : ∀ part ∈ node.parts, L.Knows part ∧ part.id < node.id
  hosts : ∀ host ∈ node.ownHosts, L.HasHost node.context host
  spares : Engine.destination ∉ node.cutHosts
  source : ∀ host, node.source? = some host → ∃ fate kind,
    L.host node.context host = some fate ∧ fate.kind = some kind ∧ kind.isSource = true

-- An instrument that holds nodes that are known.
structure Manned (L : Ledger) (roster : Roster) : Prop where
  opened : roster.context < L.contexts
  played : ∀ node ∈ roster.played, L.Knows node
  voices : ∀ voice ∈ roster.voices, L.Knows voice.1

structure Stocked (L : Ledger) (builder : Builder) : Prop where
  opened : builder.context < L.contexts
  memo : ∀ entry ∈ builder.memo, L.Knows entry.2

-- Before number `N` no node has a whole after it.
structure Follows (L : Ledger) (N : Nat) (whole member : NodeId) : Prop where
  after : member < whole
  below : whole < L.size
  within : member < N → whole < N

-- What a listener of a node may be.
def Heeds (L : Ledger) (N : Nat) (id : NodeId) : Listener → Prop
  | .whole whole => L.Follows N whole id
  | .voice _ _ => True
  | .caller _ reply => reply.Known L

structure Sound (L : Ledger) (N : Nat) : Prop where
  late : N ≤ L.size
  ground : 0 < L.contexts
  output : ∀ c, c < L.contexts → L.HasHost c Engine.destination
  node : ∀ id node, (L.fate id).node = some node → node.id = id ∧ L.Formed node
  listener : ∀ id listener, listener ∈ (L.fate id).listeners → L.Heeds N id listener
  watcher : ∀ c h f id, L.host c h = some f → .node id ∈ f.watchers → id < L.size
  roster : ∀ k r, L.roster k = some r → L.Manned r
  builder : ∀ (b : BuilderId) builder, L.builders[b]? = some builder → L.Stocked builder

section Growth

variable {L M : Ledger} {N : Nat} (hLM : L.Grows M)
include hLM

theorem Formed.grow {node : Node} (h : L.Formed node) : M.Formed node where
  below := Nat.lt_of_lt_of_le h.below hLM.size
  opened := Nat.lt_of_lt_of_le h.opened hLM.contexts
  parts part hpart := ⟨(h.parts part hpart).1.grow hLM, (h.parts part hpart).2⟩
  hosts host hhost := (h.hosts host hhost).grow hLM
  spares := h.spares
  source host hhost := by
    obtain ⟨fate, kind, hfate, hkind, hsource⟩ := h.source host hhost
    obtain ⟨fate', hfate', hgrows⟩ := hLM.host _ host fate hfate
    exact ⟨fate', kind, hfate', hgrows.kind.trans hkind, hsource⟩

theorem Manned.grow {roster : Roster} (h : L.Manned roster) : M.Manned roster where
  opened := Nat.lt_of_lt_of_le h.opened hLM.contexts
  played node hnode := (h.played node hnode).grow hLM
  voices voice hvoice := (h.voices voice hvoice).grow hLM

theorem Stocked.grow {builder : Builder} (h : L.Stocked builder) : M.Stocked builder where
  opened := Nat.lt_of_lt_of_le h.opened hLM.contexts
  memo entry hentry := (h.memo entry hentry).grow hLM

theorem Follows.grow {whole member : NodeId} (h : L.Follows N whole member) :
    M.Follows N whole member :=
  ⟨h.after, Nat.lt_of_lt_of_le h.below hLM.size, h.within⟩

theorem Heeds.grow {id : NodeId} {listener : Listener} (h : L.Heeds N id listener) :
    M.Heeds N id listener := by
  cases listener with
  | whole whole => exact Follows.grow hLM h
  | voice => trivial
  | caller tag reply => exact Reply.Known.grow h hLM

-- A ledger stays sound as long as what is new in it is in place.
theorem Sound.grow (h : L.Sound N)
    (houtput : ∀ c, L.contexts ≤ c → c < M.contexts → M.HasHost c Engine.destination)
    (hnode : ∀ id node, (M.fate id).node = some node →
      (L.fate id).node = some node ∨ node.id = id ∧ M.Formed node)
    (hlistener : ∀ id listener, listener ∈ (M.fate id).listeners →
      listener ∈ (L.fate id).listeners ∨ M.Heeds N id listener)
    (hwatcher : ∀ c h f id, M.host c h = some f → .node id ∈ f.watchers →
      (∃ g, L.host c h = some g ∧ .node id ∈ g.watchers) ∨ id < M.size)
    (hroster : ∀ k r, M.roster k = some r → L.roster k = some r ∨ M.Manned r)
    (hbuilder : ∀ (b : BuilderId) builder, M.builders[b]? = some builder →
      L.builders[b]? = some builder ∨ M.Stocked builder) : M.Sound N where
  late := Nat.le_trans h.late hLM.size
  ground := Nat.lt_of_lt_of_le h.ground hLM.contexts
  output c hc := by
    by_cases hold : c < L.contexts
    · exact (h.output c hold).grow hLM
    · exact houtput c (Nat.not_lt.1 hold) hc
  node id node hM := by
    rcases hnode id node hM with hL | hnew
    · exact ⟨(h.node id node hL).1, (h.node id node hL).2.grow hLM⟩
    · exact hnew
  listener id listener hM := by
    rcases hlistener id listener hM with hL | hnew
    · exact (h.listener id listener hL).grow hLM
    · exact hnew
  watcher c host f id hf hid := by
    rcases hwatcher c host f id hf hid with ⟨g, hg, hL⟩ | hnew
    · exact Nat.lt_of_lt_of_le (h.watcher c host g id hg hL) hLM.size
    · exact hnew
  roster k r hM := by
    rcases hroster k r hM with hL | hnew
    · exact (h.roster k r hL).grow hLM
    · exact hnew
  builder b builder hM := by
    rcases hbuilder b builder hM with hL | hnew
    · exact (h.builder b builder hL).grow hLM
    · exact hnew

end Growth

section Sound

variable {L : Ledger} {N : Nat} (h : L.Sound N)
include h

theorem Sound.formed {node : Node} (hnode : L.Knows node) : L.Formed node :=
  (h.node node.id node hnode).2

theorem Sound.ready {context : ContextId} (hc : context < L.contexts) : L.Ready N context :=
  ⟨h.late, hc, h.output context hc⟩

-- So far there is no node from the next number on.
theorem Sound.fresh : L.Sound L.size where
  late := Nat.le_refl _
  ground := h.ground
  output := h.output
  node := h.node
  listener id listener hmem := by
    have heeds := h.listener id listener hmem
    cases listener with
    | whole whole => exact ⟨heeds.after, heeds.below, fun _ => heeds.below⟩
    | voice => trivial
    | caller tag reply => exact heeds
  watcher := h.watcher
  roster := h.roster
  builder := h.builder

end Sound

theorem Sound.offers {L : Ledger} {node : Node} (h : L.Sound 0) (hnode : L.Knows node) :
    L.Offers 0 node :=
  ⟨hnode, Nat.zero_le _, h.ready (h.formed hnode).opened⟩

-- All that a whole reaches is known along with it.
theorem Sound.knows_of_reach {L : Ledger} {N : Nat} {node inner : Node} (h : L.Sound N)
    (hnode : L.Knows node) (hinner : inner ∈ node.reach) : L.Knows inner := by
  induction node using Node.induct with
  | step node ih =>
      rcases Node.mem_reach.1 hinner with rfl | ⟨part, hpart, hreach⟩
      · exact hnode
      · exact ih part hpart ((h.formed hnode).parts part hpart).1 hreach

section Entries

variable {L : Ledger} {N : Nat} (h : L.Sound N)
include h

theorem Sound.setFate (id : NodeId) {f : Fate → Fate}
    (hgrows : (L.fate id).Grows (f (L.fate id))) (hnode : (f (L.fate id)).node = (L.fate id).node)
    (hlistener : ∀ listener ∈ (f (L.fate id)).listeners,
      listener ∈ (L.fate id).listeners ∨ L.Heeds N id listener) : (L.setFate id f).Sound N := by
  refine h.grow (L.grows_setFate id hgrows) (fun c hle hlt => absurd hlt (Nat.not_lt.2 hle))
    (fun j node hj => .inl ?_) (fun j listener hj => ?_)
    (fun _ _ f _ hf hw => .inl ⟨f, hf, hw⟩) (fun _ _ hk => .inl hk) fun _ _ hb => .inl hb
  · rw [fate_setFate] at hj
    split at hj
    case isTrue heq => rw [heq, ← hnode]; exact hj
    case isFalse => exact hj
  · rw [fate_setFate] at hj
    split at hj
    case isTrue heq =>
        rw [heq]
        exact (hlistener listener hj).imp_right fun heeds => heeds.grow (L.grows_setFate id hgrows)
    case isFalse => exact .inl hj

theorem Sound.setHost (c : ContextId) (host : HostId) {g : HostFate → HostFate}
    (hg : ∀ f : HostFate, f.Grows (g f))
    (hwatcher : ∀ f id, .node id ∈ (g f).watchers → .node id ∈ f.watchers ∨ id < L.size) :
    (L.setHost c host g).Sound N := by
  refine h.grow (L.grows_setHost c host hg) (fun _ hle hlt => absurd hlt (Nat.not_lt.2 hle))
    (fun _ _ hj => .inl hj) (fun _ _ hj => .inl hj) (fun c' host' f id hf hid => ?_)
    (fun _ _ hk => .inl hk) fun _ _ hb => .inl hb
  rw [host_setHost] at hf
  split at hf
  case isFalse => exact .inl ⟨f, hf, hid⟩
  case isTrue heq =>
      obtain ⟨rfl, rfl⟩ := heq
      obtain ⟨old, hold, rfl⟩ := Option.map_eq_some_iff.1 hf
      exact (hwatcher old id hid).imp_left fun hid => ⟨old, hold, hid⟩

theorem Sound.setRoster (k : InstrumentId) {q : Roster → Roster}
    (hq : ∀ r : Roster, r.Grows (q r)) (hmanned : ∀ r, L.Manned r → L.Manned (q r)) :
    (L.setRoster k q).Sound N := by
  have hgrows := L.grows_setRoster k hq
  refine h.grow hgrows (fun c hle hlt => absurd hlt (Nat.not_lt.2 hle))
    (fun _ _ hj => .inl hj) (fun _ _ hj => .inl hj) (fun _ _ f _ hf hw => .inl ⟨f, hf, hw⟩)
    (fun k' r hr => ?_) fun _ _ hb => .inl hb
  rw [roster_setRoster] at hr
  split at hr
  case isTrue hk =>
      obtain ⟨old, hold, rfl⟩ := Option.map_eq_some_iff.1 hr
      exact .inr ((hmanned old (h.roster k old hold)).grow hgrows)
  case isFalse => exact .inl hr

omit h in
-- A listener is an old one, or the new node that waits for one of its members.
theorem listener_of_enrol {node : Node} {id : NodeId} {listener : Listener}
    (hid : listener ∈ ((L.enrol node).fate id).listeners) :
    listener ∈ (L.fate id).listeners ∨
      ∃ member ∈ node.members, member.id = id ∧ listener = .whole node.id := by
  by_cases heq : id = node.id
  · rw [heq, fate_enrol_self] at hid
    cases hid
  · rw [fate_enrol_of_ne L heq] at hid
    split at hid
    case isFalse => exact .inl hid
    case isTrue hawaits =>
        obtain ⟨member, hmember, -, rfl⟩ := Node.mem_awaited.1 (List.mem_of_mem_filter hawaits)
        refine (List.mem_append.1 hid).imp_right fun hid => ⟨member, hmember, rfl, ?_⟩
        exact List.mem_singleton.1 hid

theorem Sound.enrol {node : Node} (hfits : L.Fits N node)
    (hsource : ∀ host, node.source? = some host → ∃ fate kind,
      L.host node.context host = some fate ∧ fate.kind = some kind ∧ kind.isSource = true) :
    (L.enrol node).Sound N := by
  have hgrows := grows_enrol hfits.absent
  have hformed : (L.enrol node).Formed node := by
    refine ⟨?_, hfits.opened, fun part hpart => ?_, hfits.hosts, hfits.spares, hsource⟩
    · rw [hfits.id]
      exact Nat.lt_succ_self _
    · have hknown := (hfits.parts part hpart).known
      refine ⟨hknown.grow hgrows, ?_⟩
      rw [hfits.id]
      exact (h.formed hknown).below
  refine h.grow hgrows (fun c hle hlt => absurd hlt (Nat.not_lt.2 hle)) (fun id other hid => ?_)
    (fun id listener hid => ?_) (fun _ _ f _ hf hw => .inl ⟨f, hf, hw⟩) (fun _ _ hk => .inl hk)
    fun _ _ hb => .inl hb
  · by_cases heq : id = node.id
    · rw [heq, fate_enrol_self] at hid
      obtain rfl : node = other := by simpa [entry] using hid
      exact .inr ⟨heq.symm, hformed⟩
    · rw [same_enrol L Fate.node (fun _ => rfl) heq] at hid
      exact .inl hid
  · refine (listener_of_enrol hid).imp_right ?_
    rintro ⟨member, hmember, rfl, rfl⟩
    have hpart := hfits.parts member (node.members_subset_parts hmember)
    refine ⟨(hformed.parts member (node.members_subset_parts hmember)).2, hformed.below, ?_⟩
    intro hlt
    exact absurd hpart.late (Nat.not_le.2 hlt)

theorem Sound.source {node : Node} {host : HostId} {kind : NodeKind} (hfits : L.Fits N node)
    (hs : node.source? = some host) (hkind : kind.isSource = true)
    (hhost : ∃ fate, L.host node.context host = some fate ∧ fate.kind = some kind ∧
      fate.ended = false) :
    ((L.enrol node).setHost node.context host (.watch (.node node.id))).Sound N := by
  have henrol : (L.enrol node).Sound N := by
    refine h.enrol hfits fun host' hhost' => ?_
    obtain rfl : host = host' := Option.some_inj.1 (hs.symm.trans hhost')
    obtain ⟨fate, hfate, hfatekind, -⟩ := hhost
    exact ⟨fate, kind, hfate, hfatekind, hkind⟩
  refine henrol.setHost _ _ (HostFate.grows_watch _) fun f id hid => ?_
  rcases List.mem_append.1 hid with hid | hid
  · exact .inl hid
  · obtain rfl : id = node.id := by simpa using hid
    rw [hfits.id]
    exact .inr (Nat.lt_succ_self _)

theorem Sound.openContext (hnone : L.host L.contexts = fun _ => none) : L.openContext.Sound N := by
  refine h.grow (grows_openContext hnone) (fun c hle hlt => ?_) (fun _ _ hj => .inl hj)
    (fun _ _ hj => .inl hj) (fun c host f id hf hid => ?_) (fun _ _ hk => .inl hk)
    fun _ _ hb => .inl hb
  · obtain rfl : c = L.contexts := Nat.le_antisymm (Nat.le_of_lt_succ hlt) hle
    rw [HasHost, host_openContext L hnone, if_pos ⟨rfl, rfl⟩]
    rfl
  · rw [host_openContext L hnone] at hf
    split at hf
    case isFalse => exact .inl ⟨f, hf, hid⟩
    case isTrue =>
        cases hf
        cases hid

theorem Sound.create {c : ContextId} {host : HostId} (kind : NodeKind)
    (hhost : L.host c host = none) : (L.create c host kind).Sound N := by
  refine h.grow (grows_create kind hhost) (fun _ hle hlt => absurd hlt (Nat.not_lt.2 hle))
    (fun _ _ hj => .inl hj) (fun _ _ hj => .inl hj) (fun c' host' f id hf hid => ?_)
    (fun _ _ hk => .inl hk) fun _ _ hb => .inl hb
  rw [host_create] at hf
  split at hf
  case isFalse => exact .inl ⟨f, hf, hid⟩
  case isTrue =>
      cases hf
      cases hid

-- Builders come and go without anything else.
theorem Sound.setBuilders {builders : Array Builder} (hbuilders : ∀ (b : BuilderId) (builder : Builder),
      builders[b]? = some builder → L.builders[b]? = some builder ∨ L.Stocked builder) :
    ({ L with builders } : Ledger).Sound N := by
  have hgrows := L.grows_builders builders
  refine h.grow hgrows (fun _ hle hlt => absurd hlt (Nat.not_lt.2 hle)) (fun _ _ hj => .inl hj)
    (fun _ _ hj => .inl hj) (fun _ _ f _ hf hw => .inl ⟨f, hf, hw⟩) (fun _ _ hk => .inl hk) ?_
  exact fun b builder hb => (hbuilders b builder hb).imp_right fun hstocked => hstocked.grow hgrows

theorem Sound.builder_push {c : ContextId} (hc : c < L.contexts) :
    ({ L with builders := L.builders.push ⟨c, []⟩ } : Ledger).Sound N := by
  refine h.setBuilders fun b builder hb => ?_
  rw [Array.getElem?_push] at hb
  split at hb
  case isTrue =>
      cases hb
      exact .inr ⟨hc, by simp⟩
  case isFalse => exact .inl hb

theorem Sound.builder_memo (b : BuilderId) (key : String) {node : Node} (hnode : L.Knows node) :
    ({ L with builders := L.builders.modify b fun builder =>
      { builder with memo := Keyed.insert key node builder.memo } } : Ledger).Sound N := by
  refine h.setBuilders fun b' builder hb => ?_
  rw [Array.getElem?_modify] at hb
  split at hb
  case isFalse => exact .inl hb
  case isTrue =>
      obtain ⟨old, hold, rfl⟩ := Option.map_eq_some_iff.1 hb
      have hstocked := h.builder b' old hold
      refine .inr ⟨hstocked.opened, fun entry hentry => ?_⟩
      rcases Keyed.mem_insert hentry with rfl | hentry
      · exact hnode
      · exact hstocked.memo entry hentry

theorem Sound.instrument {k : InstrumentId} {c : ContextId} (hk : L.roster k = none)
    (hc : c < L.contexts) :
    ({ L with roster := Function.update L.roster k (some (.new c)) } : Ledger).Sound N := by
  refine h.grow (grows_instrument c hk) (fun _ hle hlt => absurd hlt (Nat.not_lt.2 hle))
    (fun _ _ hj => .inl hj) (fun _ _ hj => .inl hj) (fun _ _ f _ hf hw => .inl ⟨f, hf, hw⟩)
    (fun k' r hr => ?_) fun _ _ hb => .inl hb
  dsimp only at hr
  rw [Function.update_apply] at hr
  split at hr
  case isTrue =>
      cases hr
      exact .inr ⟨hc, by simp [Roster.new], by simp [Roster.new]⟩
  case isFalse => exact .inl hr

end Entries

end Patchbay.Ledger

namespace Patchbay

theorem Request.watchers_mark (request : Request) (f : HostFate) :
    (request.mark f).watchers = f.watchers := by
  cases request <;> rfl

theorem Makes.sound {N : Nat} {L M : Ledger} (h : Makes N L M) (hL : L.Sound N) : M.Sound N := by
  cases h with
  | openContext hnone => exact hL.openContext hnone
  | create c h kind hc hh => exact hL.create kind hh
  | request c request =>
      exact hL.setHost _ _ request.grows_mark fun f id hid => .inl (request.watchers_mark f ▸ hid)
  | watch c h tag =>
      exact hL.setHost _ _ (HostFate.grows_watch _) fun f id hid => .inl <| by
        simpa [HostFate.watch] using hid
  | node node hfits hs => exact hL.enrol hfits (by simp [hs])
  | source node host kind hfits hs hkind hhost => exact hL.source hfits hs hkind hhost
  | builder c hc => exact hL.builder_push hc
  | memo id key node hnode => exact hL.builder_memo id key hnode.known
  | instrument k c hc hk => exact hL.instrument hk hc

theorem Made.sound {N : Nat} {L M : Ledger} (h : Made N L M) (hL : L.Sound N) : M.Sound N := by
  induction h with
  | refl => exact hL
  | tail _ h ih => exact h.sound ih

end Patchbay
