import Mathlib.Logic.Function.Basic
import Patchbay.Proofs.Studio.Outcome
import Patchbay.Proofs.Node.Parts

namespace Patchbay

@[ext] structure Fate where
  node : Option Node
  ended : Bool
  cut : Bool
  awaiting : List NodeId
  listeners : List Listener

-- Of a number that no node has.
def Fate.absent : Fate := ⟨none, false, false, [], []⟩

def NodeState.fate (state : NodeState) : Fate :=
  ⟨some state.node, state.ended, state.disconnected, state.awaiting, state.listeners⟩

@[ext] structure HostFate where
  kind : Option NodeKind
  -- It has a time to start, and a time to stop.
  starts : Bool
  stops : Bool
  ended : Bool
  cut : Bool
  watchers : List Watcher

def HostNode.fate (node : HostNode) : HostFate where
  kind := node.kind
  starts := node.startedAt.isSome
  stops := node.stopAt.isSome
  ended := node.ended
  cut := node.disconnected
  watchers := node.watchers

-- Nothing has happened to a host node that was just made.
def HostFate.fresh (kind : Option NodeKind) : HostFate := ⟨kind, false, false, false, false, []⟩

def Engine.hosts (engine : Engine) (host : HostId) : Option HostFate :=
  engine.nodes[host]?.map HostNode.fate

-- An instrument as its registry knows it: the nodes that it played, and the ids of the voices whose
-- ends it announced.
@[ext] structure Roster where
  context : ContextId
  played : List Node
  voices : List (Node × VoiceId)
  ended : List VoiceId

def Event.endOf? : Event → Option VoiceId
  | .ended voice => some voice
  | .started _ _ | .voices _ => none

def Instrument.roster (inst : Instrument) : Roster where
  context := inst.context
  played := inst.played
  voices := inst.voices.map fun voice => (voice.node, voice.id)
  ended := inst.announced.filterMap Event.endOf?

-- The tag of a caller who was told that a node has ended.
def Notice.called? : Notice → Option String
  | .nodeEnded tag => some tag
  | _ => none

-- What ends and disconnections go by: nodes, host nodes and registries, each under its number.
@[ext] structure Ledger where
  size : Nat
  fate : NodeId → Fate
  contexts : Nat
  host : ContextId → HostId → Option HostFate
  roster : InstrumentId → Option Roster
  builders : Array Builder
  asked : List (NodeId × String)
  called : List String

def Studio.ledger (studio : Studio) : Ledger where
  size := studio.nodes.size
  fate id := studio.nodes[id]?.elim .absent NodeState.fate
  contexts := studio.engines.size
  host context := studio.engines[context]?.elim (fun _ => none) Engine.hosts
  roster id := studio.instruments[id]?.map Instrument.roster
  builders := studio.builders
  asked := studio.asked
  called := studio.heard.toList.filterMap Notice.called?

theorem Studio.fate_of_size_le {s : Studio} {id : NodeId} (h : s.ledger.size ≤ id) :
    s.ledger.fate id = .absent := by
  have hnone : s.nodes[id]? = none := Array.getElem?_eq_none h
  simp only [ledger, hnone, Option.elim_none]

namespace Ledger

def setFate (ledger : Ledger) (id : NodeId) (f : Fate → Fate) : Ledger :=
  { ledger with fate := Function.update ledger.fate id (f (ledger.fate id)) }

def setHosts (ledger : Ledger) (context : ContextId) (hosts : HostId → Option HostFate) : Ledger :=
  { ledger with host := Function.update ledger.host context hosts }

def setHost (ledger : Ledger) (context : ContextId) (host : HostId) (f : HostFate → HostFate) :
    Ledger :=
  ledger.setHosts context
    (Function.update (ledger.host context) host ((ledger.host context host).map f))

def setRoster (ledger : Ledger) (id : InstrumentId) (f : Roster → Roster) : Ledger :=
  { ledger with roster := Function.update ledger.roster id ((ledger.roster id).map f) }

section Entries

variable (L : Ledger) (id : NodeId) (f : Fate → Fate)
variable (c : ContextId) (h : HostId) (g : HostFate → HostFate) (hosts : HostId → Option HostFate)
variable (k : InstrumentId) (r : Roster → Roster)

theorem fate_setFate (j : NodeId) :
    (L.setFate id f).fate j = if j = id then f (L.fate id) else L.fate j := by
  simp [setFate, Function.update_apply]

@[simp] theorem fate_setFate_self : (L.setFate id f).fate id = f (L.fate id) := by
  simp [setFate]

-- What a change leaves alone about an entry is the same for all of them.
theorem same_setFate {α : Type} (part : Fate → α) (hf : part (f (L.fate id)) = part (L.fate id))
    (j : NodeId) : part ((L.setFate id f).fate j) = part (L.fate j) := by
  rw [fate_setFate]
  split
  case isTrue hj => rw [hf, hj]
  case isFalse => rfl

@[simp] theorem size_setFate : (L.setFate id f).size = L.size := rfl
@[simp] theorem contexts_setFate : (L.setFate id f).contexts = L.contexts := rfl
@[simp] theorem host_setFate : (L.setFate id f).host = L.host := rfl
@[simp] theorem roster_setFate : (L.setFate id f).roster = L.roster := rfl
@[simp] theorem builders_setFate : (L.setFate id f).builders = L.builders := rfl
@[simp] theorem asked_setFate : (L.setFate id f).asked = L.asked := rfl
@[simp] theorem called_setFate : (L.setFate id f).called = L.called := rfl

theorem host_setHosts (c' : ContextId) :
    (L.setHosts c hosts).host c' = if c' = c then hosts else L.host c' := by
  simp [setHosts, Function.update_apply]

theorem setHosts_self : L.setHosts c (L.host c) = L := by
  simp [setHosts, Function.update_eq_self]

@[simp] theorem size_setHosts : (L.setHosts c hosts).size = L.size := rfl
@[simp] theorem fate_setHosts : (L.setHosts c hosts).fate = L.fate := rfl
@[simp] theorem contexts_setHosts : (L.setHosts c hosts).contexts = L.contexts := rfl
@[simp] theorem roster_setHosts : (L.setHosts c hosts).roster = L.roster := rfl
@[simp] theorem builders_setHosts : (L.setHosts c hosts).builders = L.builders := rfl
@[simp] theorem asked_setHosts : (L.setHosts c hosts).asked = L.asked := rfl
@[simp] theorem called_setHosts : (L.setHosts c hosts).called = L.called := rfl

theorem host_setHost (c' : ContextId) (h' : HostId) :
    (L.setHost c h g).host c' h' =
      if c' = c ∧ h' = h then (L.host c h).map g else L.host c' h' := by
  unfold setHost
  rw [host_setHosts]
  by_cases hc : c' = c
  · subst hc
    by_cases hh : h' = h <;> simp [hh]
  · simp [hc]

theorem same_setHost {α : Type} (part : Option HostFate → α)
    (hg : ∀ fate, part (some (g fate)) = part (some fate)) (c' : ContextId) (h' : HostId) :
    part ((L.setHost c h g).host c' h') = part (L.host c' h') := by
  rw [host_setHost]
  split
  case isTrue heq =>
      obtain ⟨rfl, rfl⟩ := heq
      cases L.host c' h' with
      | none => rfl
      | some fate => exact hg fate
  case isFalse => rfl

@[simp] theorem size_setHost : (L.setHost c h g).size = L.size := rfl
@[simp] theorem fate_setHost : (L.setHost c h g).fate = L.fate := rfl
@[simp] theorem contexts_setHost : (L.setHost c h g).contexts = L.contexts := rfl
@[simp] theorem roster_setHost : (L.setHost c h g).roster = L.roster := rfl
@[simp] theorem builders_setHost : (L.setHost c h g).builders = L.builders := rfl
@[simp] theorem asked_setHost : (L.setHost c h g).asked = L.asked := rfl
@[simp] theorem called_setHost : (L.setHost c h g).called = L.called := rfl

theorem roster_setRoster (k' : InstrumentId) :
    (L.setRoster k r).roster k' = if k' = k then (L.roster k).map r else L.roster k' := by
  simp [setRoster, Function.update_apply]

@[simp] theorem size_setRoster : (L.setRoster k r).size = L.size := rfl
@[simp] theorem fate_setRoster : (L.setRoster k r).fate = L.fate := rfl
@[simp] theorem contexts_setRoster : (L.setRoster k r).contexts = L.contexts := rfl
@[simp] theorem host_setRoster : (L.setRoster k r).host = L.host := rfl
@[simp] theorem builders_setRoster : (L.setRoster k r).builders = L.builders := rfl
@[simp] theorem asked_setRoster : (L.setRoster k r).asked = L.asked := rfl
@[simp] theorem called_setRoster : (L.setRoster k r).called = L.called := rfl

end Entries

end Ledger

section Acts

variable (s : Studio)

theorem Studio.fate_eq (node : Node) : s.ledger.fate node.id =
    s.nodes[node.id]?.elim .absent NodeState.fate := rfl

theorem Studio.ledger_changeNode {id : NodeId} (hid : id < s.nodes.size) {f : NodeState → NodeState}
    {g : Fate → Fate} (hf : ∀ state, (f state).fate = g state.fate) :
    ({ s with nodes := s.nodes.modify id f } : Studio).ledger = s.ledger.setFate id g := by
  have hat : s.nodes[id]? = some s.nodes[id] := Array.getElem?_eq_getElem hid
  ext1
  case size => simp [Studio.ledger, Ledger.setFate]
  case fate =>
      funext j
      simp only [Ledger.fate_setFate, Studio.ledger, Array.getElem?_modify]
      by_cases hj : j = id
      · subst hj
        simp [hat, hf]
      · simp [hj, Ne.symm hj]
  all_goals rfl

-- What only concerns how nodes are played is not in the ledger.
theorem Studio.ledger_changeNode_eq (id : NodeId) {f : NodeState → NodeState}
    (hf : ∀ state, (f state).fate = state.fate) :
    ({ s with nodes := s.nodes.modify id f } : Studio).ledger = s.ledger := by
  ext1
  case size => simp [Studio.ledger]
  case fate =>
      funext j
      simp only [Studio.ledger, Array.getElem?_modify]
      by_cases hj : id = j
      · subst hj
        cases s.nodes[id]? <;> simp [hf]
      · simp [hj]
  all_goals rfl

theorem Studio.ledger_setEngine {context : ContextId} (hc : context < s.engines.size)
    (engine : Engine) :
    ({ s with engines := s.engines.modify context fun _ => engine } : Studio).ledger =
      s.ledger.setHosts context engine.hosts := by
  have hat : s.engines[context]? = some s.engines[context] := Array.getElem?_eq_getElem hc
  ext1
  case contexts => simp [Studio.ledger]
  case host =>
      funext c
      simp only [Ledger.host_setHosts, Studio.ledger, Array.getElem?_modify]
      by_cases hcc : c = context
      · subst hcc
        simp [hat]
      · simp [hcc, Ne.symm hcc]
  all_goals rfl

theorem Studio.host_eq {context : ContextId} (hc : context < s.engines.size) :
    s.ledger.host context = (s.engine context).hosts := by
  simp [Studio.ledger, Studio.engine, hc]

-- A context that was never opened has one host node, and nothing has happened to that.
theorem Studio.any_host {part : HostFate → Bool} (hfresh : part (.fresh none) = false)
    (context : ContextId) (host : HostId) : (s.ledger.host context host).any part =
      ((s.engine context).nodes[host]?).any fun node => part node.fate := by
  by_cases hc : context < s.engines.size
  · rw [s.host_eq hc, Engine.hosts, Option.any_map]
  · have hnone : s.engines[context]? = none := Array.getElem?_eq_none (Nat.not_lt.1 hc)
    simp only [Studio.ledger, Studio.engine, hnone]
    cases host with
    | zero => exact hfresh.symm
    | succ host => simp [Engine.new]

-- There is no host to change.
theorem Studio.modify_engines {context : ContextId} (hc : ¬context < s.engines.size)
    (engine : Engine) : s.engines.modify context (fun _ => engine) = s.engines := by
  apply Array.ext_getElem?
  intro i
  rw [Array.getElem?_modify]
  split
  case isTrue hi =>
      subst hi
      simp [Array.getElem?_eq_none (Nat.not_lt.1 hc)]
  case isFalse => rfl

theorem Studio.ledger_setEngine_eq (context : ContextId) {engine : Engine}
    (he : engine.hosts = (s.engine context).hosts) :
    ({ s with engines := s.engines.modify context fun _ => engine } : Studio).ledger = s.ledger := by
  by_cases hc : context < s.engines.size
  · rw [s.ledger_setEngine hc, he, ← s.host_eq hc, Ledger.setHosts_self]
  · rw [s.modify_engines hc]

theorem Studio.ledger_changeHost {context : ContextId} {host : HostId} {engine : Engine}
    {f : HostNode → HostNode} {g : HostFate → HostFate}
    (he : engine.nodes = (s.engine context).nodes.modify host f)
    (hf : ∀ node, (f node).fate = g node.fate) :
    ({ s with engines := s.engines.modify context fun _ => engine } : Studio).ledger =
      s.ledger.setHost context host g := by
  by_cases hc : context < s.engines.size
  · have hhosts : engine.hosts = Function.update (s.engine context).hosts host
        (((s.engine context).hosts host).map g) := by
      funext id
      simp only [Engine.hosts, he, Array.getElem?_modify, Function.update_apply]
      by_cases hid : id = host
      · subst hid
        cases (s.engine context).nodes[id]? <;> simp [hf]
      · simp [hid, Ne.symm hid]
    rw [s.ledger_setEngine hc, hhosts, ← s.host_eq hc]
    rfl
  · have hnone : s.ledger.host context = fun _ => none := by
      simp [Studio.ledger, Array.getElem?_eq_none (Nat.not_lt.1 hc)]
    have hsame : Function.update (s.ledger.host context) host
        ((s.ledger.host context host).map g) = s.ledger.host context := by
      simp [hnone]
    rw [s.modify_engines hc, Ledger.setHost, hsame, Ledger.setHosts_self]

theorem Studio.ledger_changeInstrument {id : InstrumentId} {f : Instrument → Instrument}
    {g : Roster → Roster} (hf : ∀ inst, (f inst).roster = g inst.roster) :
    ({ s with instruments := s.instruments.modify id f } : Studio).ledger =
      s.ledger.setRoster id g := by
  ext1
  case roster =>
      funext k
      simp only [Ledger.roster_setRoster, Studio.ledger, Array.getElem?_modify]
      by_cases hk : k = id
      · subst hk
        cases s.instruments[k]? <;> simp [hf]
      · simp [hk, Ne.symm hk]
  all_goals rfl

theorem Studio.ledger_changeInstrument_eq (inst : InstrumentId) {f : Instrument → Instrument}
    (hf : ∀ i, (f i).roster = i.roster) :
    ({ s with instruments := s.instruments.modify inst f } : Studio).ledger = s.ledger := by
  rw [s.ledger_changeInstrument (g := fun roster => roster) hf]
  simp [Ledger.setRoster]

theorem Studio.ledger_hear {notice : Notice} (h : notice.called? = none) :
    ({ s with heard := s.heard.push notice } : Studio).ledger = s.ledger := by
  ext1
  case called => simp [Studio.ledger, h]
  all_goals rfl

end Acts

end Patchbay
