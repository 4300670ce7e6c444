import Patchbay.Proofs.Ledger.Soundness

namespace Patchbay

inductive Debt where
  -- The node is to end, unless it has.
  | finish (id : NodeId)
  -- The node has ended, and the listener is to be told.
  | tell (id : NodeId) (listener : Listener)
  | cut (node : Node)
  | cutHost (context : ContextId) (host : HostId)
  | announce (inst : InstrumentId) (voice : VoiceId)

-- What callers have had disconnected: nodes, and host nodes on their own.
structure Past where
  dropped : List Node
  silenced : List (ContextId × HostId)

-- An end or a disconnection sets off others, one inside the other. A ledger, with all that has begun
-- and is still owed.
structure Moment where
  ledger : Ledger
  owed : List Debt
  past : Past

def Fate.close (fate : Fate) : Fate := { fate with ended := true, listeners := [] }

def Fate.miss (member : NodeId) (fate : Fate) : Fate :=
  { fate with awaiting := fate.awaiting.erase member }

def Fate.cutOff (fate : Fate) : Fate := { fate with cut := true }

def HostFate.close (fate : HostFate) : HostFate := { fate with ended := true, watchers := [] }

def HostFate.cutOff (fate : HostFate) : HostFate := { fate with cut := true }

def Roster.play (node : Node) (roster : Roster) : Roster :=
  { roster with
    played := roster.played ++ [node]
    voices := roster.voices ++ [(node, roster.played.length)] }

def Roster.release (voice : VoiceId) (roster : Roster) : Roster :=
  { roster with voices := roster.voices.filter (·.2 != voice) }

def Roster.announce (voice : VoiceId) (roster : Roster) : Roster :=
  { roster with ended := roster.ended ++ [voice] }

def Ledger.ask (L : Ledger) (id : NodeId) (tag : String) : Ledger :=
  { L with asked := L.asked ++ [(id, tag)] }

def Ledger.call (L : Ledger) (tag : String) : Ledger := { L with called := L.called ++ [tag] }

def Ledger.closeHosts (L : Ledger) (context : ContextId) (hosts : List HostId) : Ledger :=
  L.setHosts context fun host =>
    if host ∈ hosts then (L.host context host).map .close else L.host context host

def Watcher.node? : Watcher → Option NodeId
  | .node id => some id
  | .tag _ => none

-- The nodes that watch a host node.
def Ledger.watching (L : Ledger) (context : ContextId) (host : HostId) : List NodeId :=
  ((L.host context host).elim [] HostFate.watchers).filterMap Watcher.node?

-- What the disconnection of a node comes down to.
def Node.cuts (node : Node) : List Debt :=
  node.cutHosts.map (.cutHost node.context) ++ node.parts.map .cut

-- A move pays the first debt, which may run up new ones, or makes something in between.
inductive Move (N : Nat) : Moment → Moment → Prop where
  | make {L M : Ledger} {D : List Debt} {P : Past} (h : Makes N L M) : Move N ⟨L, D, P⟩ ⟨M, D, P⟩
  | play {L : Ledger} {D : List Debt} {P : Past} (k : InstrumentId) (r : Roster) (node : Node)
      (hk : L.roster k = some r) (hnode : L.Knows node) (hlive : (L.fate node.id).ended = false) :
      Move N ⟨L, D, P⟩ ⟨(L.setRoster k (.play node)).setFate node.id
        (.listen (.voice k r.played.length)), D, P⟩
  -- A node that has ended is registered all the same, and leaves at once.
  | playEnded {L : Ledger} {D : List Debt} {P : Past} (k : InstrumentId) (r : Roster) (node : Node)
      (hk : L.roster k = some r) (hnode : L.Knows node) (hended : (L.fate node.id).ended = true) :
      Move N ⟨L, D, P⟩
        ⟨L.setRoster k (.play node), .tell node.id (.voice k r.played.length) :: D, P⟩
  | ask {L : Ledger} {D : List Debt} {P : Past} (node : Node) (tag : String) (reply : Reply Node)
      (hnode : L.Knows node) (hreply : reply.Known L) (hlive : (L.fate node.id).ended = false) :
      Move N ⟨L, D, P⟩ ⟨(L.ask node.id tag).setFate node.id (.listen (.caller tag reply)), D, P⟩
  | askEnded {L : Ledger} {D : List Debt} {P : Past} (node : Node) (tag : String)
      (reply : Reply Node) (hnode : L.Knows node) (hended : (L.fate node.id).ended = true) :
      Move N ⟨L, D, P⟩ ⟨L.ask node.id tag, .tell node.id (.caller tag reply) :: D, P⟩
  | finish {L : Ledger} {D : List Debt} {P : Past} (id : NodeId) (node : Node)
      (hnode : (L.fate id).node = some node) (hlive : (L.fate id).ended = false) :
      Move N ⟨L, .finish id :: D, P⟩
        ⟨L.setFate id .close, (L.fate id).listeners.map (.tell id) ++ D, P⟩
  | finished {L : Ledger} {D : List Debt} {P : Past} (id : NodeId)
      (h : (L.fate id).node = none ∨ (L.fate id).ended = true) :
      Move N ⟨L, .finish id :: D, P⟩ ⟨L, D, P⟩
  | member {L : Ledger} {D : List Debt} {P : Past} (id whole : NodeId) :
      Move N ⟨L, .tell id (.whole whole) :: D, P⟩
        ⟨L.setFate whole (.miss id),
          if (L.fate whole).awaiting.erase id = [] then .finish whole :: D else D, P⟩
  | release {L : Ledger} {D : List Debt} {P : Past} (id : NodeId) (k : InstrumentId) (i : VoiceId)
      (r : Roster) (voice : Node × VoiceId) (hk : L.roster k = some r)
      (hvoice : r.voices.find? (·.2 == i) = some voice) :
      Move N ⟨L, .tell id (.voice k i) :: D, P⟩
        ⟨L.setRoster k (.release i), .cut voice.1 :: .announce k i :: D, P⟩
  | released {L : Ledger} {D : List Debt} {P : Past} (id : NodeId) (k : InstrumentId) (i : VoiceId)
      (h : ∀ r, L.roster k = some r → r.voices.find? (·.2 == i) = none) :
      Move N ⟨L, .tell id (.voice k i) :: D, P⟩ ⟨L, D, P⟩
  | call {L : Ledger} {D : List Debt} {P : Past} (id : NodeId) (tag : String)
      (reply : Reply Node) : Move N ⟨L, .tell id (.caller tag reply) :: D, P⟩ ⟨L.call tag, D, P⟩
  | cut {L : Ledger} {D : List Debt} {P : Past} (node : Node) (hnode : L.Knows node)
      (hcut : (L.fate node.id).cut = false) :
      Move N ⟨L, .cut node :: D, P⟩ ⟨L.setFate node.id .cutOff, node.cuts ++ D, P⟩
  | cutAgain {L : Ledger} {D : List Debt} {P : Past} (node : Node)
      (hcut : (L.fate node.id).cut = true) : Move N ⟨L, .cut node :: D, P⟩ ⟨L, D, P⟩
  | cutHost {L : Ledger} {D : List Debt} {P : Past} (c : ContextId) (h : HostId) :
      Move N ⟨L, .cutHost c h :: D, P⟩ ⟨L.setHost c h .cutOff, D, P⟩
  | announce {L : Ledger} {D : List Debt} {P : Past} (k : InstrumentId) (i : VoiceId) :
      Move N ⟨L, .announce k i :: D, P⟩ ⟨L.setRoster k (.announce i), D, P⟩
  | due {L : Ledger} {D : List Debt} {P : Past} (c : ContextId) (hosts : List HostId)
      (hnodup : hosts.Nodup)
      (hlive : ∀ h ∈ hosts, ∃ fate, L.host c h = some fate ∧ fate.ended = false) :
      Move N ⟨L, D, P⟩
        ⟨L.closeHosts c hosts, (hosts.flatMap (L.watching c)).map .finish ++ D, P⟩
  | drop {L : Ledger} {D : List Debt} {P : Past} (node : Node) (hnode : L.Knows node) :
      Move N ⟨L, D, P⟩ ⟨L, .cut node :: D, { P with dropped := P.dropped ++ [node] }⟩
  | dropHost {L : Ledger} {D : List Debt} {P : Past} (c : ContextId) (h : HostId)
      (hhost : L.HasHost c h) :
      Move N ⟨L, D, P⟩ ⟨L, .cutHost c h :: D, { P with silenced := P.silenced ++ [(c, h)] }⟩

def Debt.told? (id : NodeId) : Debt → Option Listener
  | .tell other listener => if other = id then some listener else none
  | .finish _ | .cut _ | .cutHost _ _ | .announce _ _ => none

-- The listeners of a node that have not been told of its end.
def Moment.pending (m : Moment) (id : NodeId) : List Listener :=
  (m.ledger.fate id).listeners ++ m.owed.filterMap (Debt.told? id)

-- The listeners of a node that ends stay pending until they are told.
theorem Debt.filterMap_tells (id other : NodeId) (listeners : List Listener) :
    (listeners.map (Debt.tell id)).filterMap (told? other) = if id = other then listeners else [] := by
  induction listeners with
  | nil => simp
  | cons first rest ih =>
      by_cases h : id = other <;> simp_all [told?]

theorem Debt.filterMap_finishes (id : NodeId) (ids : List NodeId) :
    (ids.map Debt.finish).filterMap (told? id) = [] := by
  rw [List.filterMap_eq_nil_iff]
  intro debt hdebt
  obtain ⟨_, _, rfl⟩ := List.mem_map.1 hdebt
  rfl

namespace Moment

variable {L M : Ledger} {D : List Debt} {P Q : Past} {id : NodeId}

theorem pending_cons (debt : Debt) (j : NodeId) : (Moment.mk L (debt :: D) P).pending j =
    (L.fate j).listeners ++ ((Debt.told? j debt).toList ++ D.filterMap (Debt.told? j)) := by
  rw [pending, List.filterMap_cons]
  cases Debt.told? j debt <;> rfl

-- They stay pending until they are told.
theorem pending_finish (j : NodeId) :
    (Moment.mk (L.setFate id .close) ((L.fate id).listeners.map (.tell id) ++ D) P).pending j =
      (Moment.mk L (.finish id :: D) P).pending j := by
  rw [pending_cons, pending, List.filterMap_append, Debt.filterMap_tells, Ledger.fate_setFate]
  by_cases hj : j = id
  · subst hj
    simp [Fate.close, Debt.told?]
  · simp [hj, Ne.symm hj, Debt.told?]

-- A new listener, whichever are counted.
theorem countP_pending_listen (p : Listener → Bool) (listener : Listener) (j : NodeId) :
    ((Moment.mk (L.setFate id (.listen listener)) D P).pending j).countP p =
      ((Moment.mk L D P).pending j).countP p + if j = id ∧ p listener = true then 1 else 0 := by
  simp only [pending, Ledger.fate_setFate, List.countP_append]
  by_cases hj : j = id
  · subst hj
    by_cases hp : p listener <;> simp [Fate.listen, hp]
    omega
  · simp [hj]

theorem countP_pending_tell (p : Listener → Bool) (listener : Listener) (j : NodeId) :
    ((Moment.mk L (.tell id listener :: D) P).pending j).countP p =
      ((Moment.mk L D P).pending j).countP p + if j = id ∧ p listener = true then 1 else 0 := by
  rw [pending_cons, pending, List.countP_append, List.countP_append, List.countP_append]
  by_cases hj : j = id
  · subst hj
    by_cases hp : p listener <;> simp [Debt.told?, hp]
    omega
  · simp [Debt.told?, hj, Ne.symm hj]

-- A new node only adds itself to the listeners of those that it waits for.
theorem countP_pending_enrol {N : Nat} {node : Node} (hfits : L.Fits N node) (p : Listener → Bool)
    (j : NodeId) : ((Moment.mk (L.enrol node) D P).pending j).countP p =
      ((Moment.mk L D P).pending j).countP p +
        if j ∈ L.awaits node ∧ p (.whole node.id) = true then 1 else 0 := by
  simp only [pending, Ledger.enrol, List.countP_append]
  by_cases hj : j = node.id
  · subst hj
    simp [hfits.not_awaited, hfits.absent, Ledger.entry, Fate.absent]
  · by_cases hmem : j ∈ L.awaits node
    · by_cases hp : p (.whole node.id) <;> simp [hj, hmem, hp, Fate.listen]
      omega
    · simp [hj, hmem]

end Moment

theorem Fate.grows_listen (listener : Listener) (f : Fate) : f.Grows (f.listen listener) :=
  ⟨fun _ h => h, id, id⟩

theorem Fate.grows_close (f : Fate) : f.Grows f.close := ⟨fun _ h => h, fun _ => rfl, id⟩

theorem Fate.grows_miss (member : NodeId) (f : Fate) : f.Grows (f.miss member) :=
  ⟨fun _ h => h, id, id⟩

theorem Fate.grows_cutOff (f : Fate) : f.Grows f.cutOff := ⟨fun _ h => h, id, fun _ => rfl⟩

theorem HostFate.grows_close (f : HostFate) : f.Grows f.close := ⟨rfl, id, id, fun _ => rfl, id⟩

theorem HostFate.grows_cutOff (f : HostFate) : f.Grows f.cutOff := ⟨rfl, id, id, id, fun _ => rfl⟩

theorem Roster.grows_play (node : Node) (r : Roster) : r.Grows (r.play node) :=
  ⟨rfl, List.prefix_append _ _⟩

theorem Roster.grows_release (voice : VoiceId) (r : Roster) : r.Grows (r.release voice) :=
  ⟨rfl, List.prefix_refl _⟩

theorem Roster.grows_announce (voice : VoiceId) (r : Roster) : r.Grows (r.announce voice) :=
  ⟨rfl, List.prefix_refl _⟩

namespace Ledger

variable (L : Ledger)

theorem grows_ask (id : NodeId) (tag : String) : L.Grows (L.ask id tag) :=
  ⟨Nat.le_refl _, Nat.le_refl _, fun _ => .refl _, fun _ _ f hf => ⟨f, hf, .refl f⟩,
    fun _ r hr => ⟨r, hr, .refl r⟩⟩

theorem grows_call (tag : String) : L.Grows (L.call tag) :=
  ⟨Nat.le_refl _, Nat.le_refl _, fun _ => .refl _, fun _ _ f hf => ⟨f, hf, .refl f⟩,
    fun _ r hr => ⟨r, hr, .refl r⟩⟩

theorem host_closeHosts (context : ContextId) (hosts : List HostId) (c : ContextId) (h : HostId) :
    (L.closeHosts context hosts).host c h =
      if c = context ∧ h ∈ hosts then (L.host c h).map .close else L.host c h := by
  rw [closeHosts, host_setHosts]
  by_cases hc : c = context
  · subst hc
    simp
  · simp [hc]

theorem same_closeHosts {α : Type} (part : Option HostFate → α)
    (hpart : ∀ fate : HostFate, part (some fate.close) = part (some fate)) (context : ContextId)
    (hosts : List HostId) (c : ContextId) (h : HostId) :
    part ((L.closeHosts context hosts).host c h) = part (L.host c h) := by
  rw [host_closeHosts]
  split
  case isTrue =>
      cases L.host c h with
      | none => rfl
      | some fate => exact hpart fate
  case isFalse => rfl

theorem grows_closeHosts (context : ContextId) (hosts : List HostId) :
    L.Grows (L.closeHosts context hosts) where
  size := Nat.le_refl _
  contexts := Nat.le_refl _
  fate _ := .refl _
  host c h f hf := by
    rw [host_closeHosts]
    split
    case isTrue => exact ⟨f.close, by rw [hf]; rfl, f.grows_close⟩
    case isFalse => exact ⟨f, hf, .refl f⟩
  roster _ r hr := ⟨r, hr, .refl r⟩

end Ledger

theorem Move.grows {N : Nat} {m m' : Moment} (h : Move N m m') : m.ledger.Grows m'.ledger := by
  cases h with
  | make h => exact h.grows
  | play k r node hk hnode hlive =>
      exact (Ledger.grows_setRoster _ k (Roster.grows_play node)).trans
        (Ledger.grows_setFate _ _ (Fate.grows_listen _ _))
  | playEnded k r node => exact Ledger.grows_setRoster _ k (Roster.grows_play node)
  | ask node tag reply =>
      exact (Ledger.grows_ask _ _ tag).trans (Ledger.grows_setFate _ _ (Fate.grows_listen _ _))
  | askEnded node tag reply => exact Ledger.grows_ask _ _ tag
  | finish id node => exact Ledger.grows_setFate _ _ (Fate.grows_close _)
  | member id whole => exact Ledger.grows_setFate _ _ (Fate.grows_miss _ _)
  | release id k i => exact Ledger.grows_setRoster _ k (Roster.grows_release i)
  | call id tag reply => exact Ledger.grows_call _ tag
  | cut node => exact Ledger.grows_setFate _ _ (Fate.grows_cutOff _)
  | cutHost c h => exact Ledger.grows_setHost _ c h HostFate.grows_cutOff
  | announce k i => exact Ledger.grows_setRoster _ k (Roster.grows_announce i)
  | due c hosts => exact Ledger.grows_closeHosts _ c hosts
  | finished | released | cutAgain | drop | dropHost => exact .refl _

theorem Move.weaken {N : Nat} {m m' : Moment} (h : Move N m m') : Move 0 m m' := by
  cases h with
  | make h => exact .make h.weaken
  | play k r node hk hnode hlive => exact .play k r node hk hnode hlive
  | playEnded k r node hk hnode hended => exact .playEnded k r node hk hnode hended
  | ask node tag reply hnode hreply hlive => exact .ask node tag reply hnode hreply hlive
  | askEnded node tag reply hnode hended => exact .askEnded node tag reply hnode hended
  | finish id node hnode hlive => exact .finish id node hnode hlive
  | finished id h => exact .finished id h
  | member id whole => exact .member id whole
  | release id k i r voice hk hvoice => exact .release id k i r voice hk hvoice
  | released id k i h => exact .released id k i h
  | call id tag reply => exact .call id tag reply
  | cut node hnode hcut => exact .cut node hnode hcut
  | cutAgain node hcut => exact .cutAgain node hcut
  | cutHost c h => exact .cutHost c h
  | announce k i => exact .announce k i
  | due c hosts hnodup hlive => exact .due c hosts hnodup hlive
  | drop node hnode => exact .drop node hnode
  | dropHost c h hhost => exact .dropHost c h hhost

theorem Ledger.Sound.play {L : Ledger} {N : Nat} {node : Node} (h : L.Sound N) (k : InstrumentId)
    (hnode : L.Knows node) : (L.setRoster k (.play node)).Sound N := by
  refine h.setRoster k (Roster.grows_play node) fun r hr => ⟨hr.opened, fun other hother => ?_,
    fun voice hvoice => ?_⟩
  · rcases List.mem_append.1 hother with hother | hother
    · exact hr.played other hother
    · exact List.mem_singleton.1 hother ▸ hnode
  · rcases List.mem_append.1 hvoice with hvoice | hvoice
    · exact hr.voices voice hvoice
    · exact List.mem_singleton.1 hvoice ▸ hnode

-- What is on record about callers is nothing to rest on.
theorem Ledger.Sound.ask {L : Ledger} {N : Nat} (h : L.Sound N) (id : NodeId) (tag : String) :
    (L.ask id tag).Sound N :=
  h.grow (L.grows_ask id tag) (fun _ hle hlt => absurd hlt (Nat.not_lt.2 hle))
    (fun _ _ hj => .inl hj) (fun _ _ hj => .inl hj) (fun _ _ f _ hf hw => .inl ⟨f, hf, hw⟩)
    (fun _ _ hk => .inl hk) fun _ _ hb => .inl hb

theorem Ledger.Sound.call {L : Ledger} {N : Nat} (h : L.Sound N) (tag : String) :
    (L.call tag).Sound N :=
  h.grow (L.grows_call tag) (fun _ hle hlt => absurd hlt (Nat.not_lt.2 hle))
    (fun _ _ hj => .inl hj) (fun _ _ hj => .inl hj) (fun _ _ f _ hf hw => .inl ⟨f, hf, hw⟩)
    (fun _ _ hk => .inl hk) fun _ _ hb => .inl hb

theorem Ledger.Sound.listen {L : Ledger} {N : Nat} (h : L.Sound N) {id : NodeId}
    {listener : Listener} (heeds : L.Heeds N id listener) :
    (L.setFate id (.listen listener)).Sound N := by
  refine h.setFate id (Fate.grows_listen _ _) rfl fun other hother => ?_
  rcases List.mem_append.1 hother with hother | hother
  · exact .inl hother
  · exact .inr (List.mem_singleton.1 hother ▸ heeds)

theorem Move.sound {N : Nat} {m m' : Moment} (h : Move N m m') (hm : m.ledger.Sound N) :
    m'.ledger.Sound N := by
  cases h with
  | make h => exact h.sound hm
  | play k r node hk hnode hlive =>
      exact (hm.play k hnode).listen trivial
  | playEnded k r node hk hnode => exact hm.play k hnode
  | ask node tag reply hnode hreply =>
      exact (hm.ask node.id tag).listen (hreply.grow (Ledger.grows_ask _ _ tag))
  | askEnded node tag reply => exact hm.ask node.id tag
  | finish id node => exact hm.setFate _ (Fate.grows_close _) rfl (by simp [Fate.close])
  | member id whole => exact hm.setFate _ (Fate.grows_miss _ _) rfl fun _ => .inl
  | release id k i =>
      refine hm.setRoster k (Roster.grows_release i) fun r hr => ⟨hr.opened, hr.played, ?_⟩
      exact fun voice hvoice => hr.voices voice (List.mem_of_mem_filter hvoice)
  | call id tag reply => exact hm.call tag
  | cut node => exact hm.setFate _ (Fate.grows_cutOff _) rfl fun _ => .inl
  | cutHost c h => exact hm.setHost c h HostFate.grows_cutOff fun _ _ hid => .inl hid
  | announce k i =>
      exact hm.setRoster k (Roster.grows_announce i) fun r hr => ⟨hr.opened, hr.played, hr.voices⟩
  | due c hosts =>
      refine hm.grow (Ledger.grows_closeHosts _ c hosts)
        (fun _ hle hlt => absurd hlt (Nat.not_lt.2 hle)) (fun _ _ hj => .inl hj)
        (fun _ _ hj => .inl hj) (fun c' h f id hf hid => ?_) (fun _ _ hk => .inl hk)
        fun _ _ hb => .inl hb
      rw [Ledger.host_closeHosts] at hf
      split at hf
      case isFalse => exact .inl ⟨f, hf, hid⟩
      case isTrue =>
          obtain ⟨old, -, rfl⟩ := Option.map_eq_some_iff.1 hf
          simp [HostFate.close] at hid
  | finished | released | cutAgain | drop | dropHost => exact hm

def Moves (N : Nat) : Moment → Moment → Prop := Relation.ReflTransGen (Move N)

namespace Moves

variable {N : Nat} {m m' : Moment}

theorem grows (h : Moves N m m') : m.ledger.Grows m'.ledger := by
  induction h with
  | refl => exact .refl _
  | tail _ h ih => exact ih.trans h.grows

theorem sound (h : Moves N m m') (hm : m.ledger.Sound N) : m'.ledger.Sound N := by
  induction h with
  | refl => exact hm
  | tail _ h ih => exact h.sound ih

theorem weaken (h : Moves N m m') : Moves 0 m m' := by
  induction h with
  | refl => exact .refl
  | tail _ h ih => exact ih.tail h.weaken

theorem of_made {L M : Ledger} {D : List Debt} {P : Past} (h : Made N L M) :
    Moves N ⟨L, D, P⟩ ⟨M, D, P⟩ := by
  induction h with
  | refl => exact .refl
  | tail _ h ih => exact ih.tail (.make h)

end Moves

end Patchbay
