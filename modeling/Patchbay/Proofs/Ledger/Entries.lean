import Mathlib.Logic.Relation
import Patchbay.Node.Compose
import Patchbay.Proofs.Ledger.Growth
import Patchbay.Proofs.Keyed
import Patchbay.Proofs.Studio.Requests

namespace Patchbay

def Fate.listen (listener : Listener) (fate : Fate) : Fate :=
  { fate with listeners := fate.listeners ++ [listener] }

def HostFate.watch (watcher : Watcher) (fate : HostFate) : HostFate :=
  { fate with watchers := fate.watchers ++ [watcher] }

def Roster.new (context : ContextId) : Roster := ⟨context, [], [], []⟩

namespace Ledger

def openContext (L : Ledger) : Ledger :=
  { L with
    contexts := L.contexts + 1
    host := Function.update L.host L.contexts fun h =>
      if h = Engine.destination then some (.fresh none) else none }

def create (L : Ledger) (context : ContextId) (host : HostId) (kind : NodeKind) : Ledger :=
  L.setHosts context (Function.update (L.host context) host (some (.fresh (some kind))))

-- The members whose end is still to come.
def awaits (L : Ledger) (node : Node) : List NodeId :=
  node.awaited.filter fun id => !(L.fate id).ended

-- A node all of whose members have ended has ended from the start.
def entry (L : Ledger) (node : Node) : Fate where
  node := some node
  ended := !node.awaited.isEmpty && (L.awaits node).isEmpty
  cut := false
  awaiting := L.awaits node
  listeners := []

def enrol (L : Ledger) (node : Node) : Ledger :=
  { L with
    size := L.size + 1
    fate := fun id =>
      if id = node.id then L.entry node
      else if id ∈ L.awaits node then (L.fate id).listen (.whole node.id)
      else L.fate id }

-- A new node, with its parts and its host nodes at hand.
structure Fits (L : Ledger) (N : Nat) (node : Node) : Prop where
  id : node.id = L.size
  absent : L.fate node.id = .absent
  late : N ≤ L.size
  opened : node.context < L.contexts
  parts : ∀ part ∈ node.parts, L.Offers N part
  hosts : ∀ host ∈ node.ownHosts, L.HasHost node.context host
  spares : Engine.destination ∉ node.cutHosts

theorem Fits.ne_of_awaited {L : Ledger} {N : Nat} {node : Node} (hfits : L.Fits N node)
    {id : NodeId} (hid : id ∈ node.awaited) : id ≠ node.id := by
  rintro rfl
  obtain ⟨member, hmember, -, heq⟩ := Node.mem_awaited.1 hid
  have hknown := (hfits.parts member (node.members_subset_parts hmember)).known
  rw [Knows, heq, hfits.absent] at hknown
  cases hknown

theorem Fits.not_awaited {L : Ledger} {N : Nat} {node : Node} (hfits : L.Fits N node) :
    node.id ∉ L.awaits node :=
  fun hmem => hfits.ne_of_awaited (List.mem_of_mem_filter hmem) rfl

section New

variable {α : Type} {node : Node} {id : NodeId} {kind : NodeKind}

theorem host_openContext (L : Ledger) (hnone : L.host L.contexts = fun _ => none) (c : ContextId)
    (h : HostId) : L.openContext.host c h =
      if c = L.contexts ∧ h = Engine.destination then some (.fresh none) else L.host c h := by
  simp only [openContext, Function.update_apply]
  by_cases hc : c = L.contexts
  · subst hc
    simp [hnone]
  · simp [hc]

theorem host_create (L : Ledger) (c c' : ContextId) (h h' : HostId) :
    (L.create c h kind).host c' h' =
      if c' = c ∧ h' = h then some (.fresh (some kind)) else L.host c' h' := by
  rw [create, host_setHosts]
  by_cases hc : c' = c
  · subst hc
    simp [Function.update_apply]
  · simp [hc]

-- What a new host node has in common with one that is not there is the same for all host nodes.
theorem same_openContext (L : Ledger) (part : Option HostFate → α)
    (hnone : L.host L.contexts = fun _ => none) (hpart : part (some (.fresh none)) = part none)
    (c : ContextId) (h : HostId) : part (L.openContext.host c h) = part (L.host c h) := by
  rw [host_openContext L hnone]
  split
  case isTrue heq => rw [heq.1, hnone, hpart]
  case isFalse => rfl

theorem same_create (L : Ledger) (part : Option HostFate → α) {c : ContextId} {h : HostId}
    (hh : L.host c h = none) (hpart : part (some (.fresh (some kind))) = part none)
    (c' : ContextId) (h' : HostId) : part ((L.create c h kind).host c' h') = part (L.host c' h') := by
  rw [host_create]
  split
  case isTrue heq => rw [heq.1, heq.2, hh, hpart]
  case isFalse => rfl

theorem fate_enrol_self (L : Ledger) (node : Node) : (L.enrol node).fate node.id = L.entry node :=
  if_pos rfl

theorem fate_enrol_of_ne (L : Ledger) (hid : id ≠ node.id) : (L.enrol node).fate id =
    if id ∈ L.awaits node then (L.fate id).listen (.whole node.id) else L.fate id :=
  if_neg hid

-- Those that a new node waits for gain a listener and nothing else.
theorem same_enrol (L : Ledger) (part : Fate → α)
    (hpart : ∀ fate, part (Fate.listen (.whole node.id) fate) = part fate) (hid : id ≠ node.id) :
    part ((L.enrol node).fate id) = part (L.fate id) := by
  rw [fate_enrol_of_ne L hid]
  split
  case isTrue => exact hpart _
  case isFalse => rfl

end New

end Ledger

-- Nodes get numbers from `N` on, and no parts before that.
inductive Makes (N : Nat) (L : Ledger) : Ledger → Prop where
  | openContext (hnone : L.host L.contexts = fun _ => none) : Makes N L L.openContext
  | create (c : ContextId) (h : HostId) (kind : NodeKind) (hc : c < L.contexts)
      (hh : L.host c h = none) : Makes N L (L.create c h kind)
  | request (c : ContextId) (request : Request) :
      Makes N L (L.setHost c request.host request.mark)
  | watch (c : ContextId) (h : HostId) (tag : String) :
      Makes N L (L.setHost c h (.watch (.tag tag)))
  | node (node : Node) (hfits : L.Fits N node) (hs : node.source? = none) :
      Makes N L (L.enrol node)
  -- A source is made on a host node of its own, and watches it from then on.
  | source (node : Node) (host : HostId) (kind : NodeKind) (hfits : L.Fits N node)
      (hs : node.source? = some host) (hkind : kind.isSource = true)
      (hhost : ∃ fate, L.host node.context host = some fate ∧ fate.kind = some kind ∧
        fate.ended = false) :
      Makes N L ((L.enrol node).setHost node.context host (.watch (.node node.id)))
  | builder (c : ContextId) (hc : c < L.contexts) :
      Makes N L { L with builders := L.builders.push ⟨c, []⟩ }
  | memo (builder : BuilderId) (key : String) (node : Node) (hnode : L.Offers N node) :
      Makes N L { L with builders := L.builders.modify builder fun b =>
        { b with memo := Keyed.insert key node b.memo } }
  | instrument (k : InstrumentId) (c : ContextId) (hc : c < L.contexts) (hk : L.roster k = none) :
      Makes N L { L with roster := Function.update L.roster k (some (.new c)) }

namespace Ledger

variable {L : Ledger}

theorem grows_setHosts (c : ContextId) {hosts : HostId → Option HostFate}
    (h : ∀ host f, L.host c host = some f → hosts host = some f) : L.Grows (L.setHosts c hosts) where
  size := Nat.le_refl _
  contexts := Nat.le_refl _
  fate _ := .refl _
  host c' host f hf := by
    rw [host_setHosts]
    split
    case isTrue hc => exact ⟨f, h host f (hc ▸ hf), .refl f⟩
    case isFalse => exact ⟨f, hf, .refl f⟩
  roster _ r hr := ⟨r, hr, .refl r⟩

theorem grows_openContext (hnone : L.host L.contexts = fun _ => none) : L.Grows L.openContext := by
  let hosts (h : HostId) := if h = Engine.destination then some (HostFate.fresh none) else none
  have hgrows : L.Grows (L.setHosts L.contexts hosts) := grows_setHosts _ (by simp [hnone])
  exact ⟨hgrows.size, Nat.le_succ _, hgrows.fate, hgrows.host, hgrows.roster⟩

theorem grows_create {c : ContextId} {h : HostId} (kind : NodeKind) (hh : L.host c h = none) :
    L.Grows (L.create c h kind) := by
  refine grows_setHosts c fun host f hf => ?_
  rw [Function.update_of_ne]
  · exact hf
  · rintro rfl
    rw [hh] at hf
    cases hf

theorem grows_enrol {node : Node} (habsent : L.fate node.id = .absent) : L.Grows (L.enrol node) where
  size := Nat.le_succ _
  contexts := Nat.le_refl _
  fate id := by
    by_cases hid : id = node.id
    · rw [hid, habsent]
      constructor <;> simp [Fate.absent]
    · rw [fate_enrol_of_ne L hid]
      split
      case isTrue => exact ⟨fun _ h => h, fun h => h, fun h => h⟩
      case isFalse => exact .refl _
  host _ _ f hf := ⟨f, hf, .refl f⟩
  roster _ r hr := ⟨r, hr, .refl r⟩

theorem grows_builders (L : Ledger) (builders : Array Builder) : L.Grows { L with builders } :=
  ⟨Nat.le_refl _, Nat.le_refl _, fun _ => .refl _, fun _ _ f hf => ⟨f, hf, .refl f⟩,
    fun _ r hr => ⟨r, hr, .refl r⟩⟩

theorem grows_instrument {k : InstrumentId} (c : ContextId) (hk : L.roster k = none) :
    L.Grows { L with roster := Function.update L.roster k (some (.new c)) } where
  size := Nat.le_refl _
  contexts := Nat.le_refl _
  fate _ := .refl _
  host _ _ f hf := ⟨f, hf, .refl f⟩
  roster k' r hr := by
    refine ⟨r, ?_, .refl r⟩
    dsimp only
    rw [Function.update_of_ne]
    · exact hr
    · rintro rfl
      rw [hk] at hr
      cases hr

end Ledger

theorem Request.grows_mark (request : Request) (f : HostFate) : f.Grows (request.mark f) := by
  cases request <;> constructor <;> simp [mark]

theorem HostFate.grows_watch (watcher : Watcher) (f : HostFate) : f.Grows (f.watch watcher) :=
  ⟨rfl, id, id, id, id⟩

theorem Makes.grows {N : Nat} {L M : Ledger} (h : Makes N L M) : L.Grows M := by
  cases h with
  | openContext hnone => exact Ledger.grows_openContext hnone
  | create c h kind hc hh => exact Ledger.grows_create kind hh
  | request c request => exact L.grows_setHost c _ request.grows_mark
  | watch c h tag => exact L.grows_setHost c h (HostFate.grows_watch _)
  | node node hfits hs => exact Ledger.grows_enrol hfits.absent
  | source node host kind hfits hs hkind hhost =>
      exact (Ledger.grows_enrol hfits.absent).trans
        (Ledger.grows_setHost _ _ _ (HostFate.grows_watch _))
  | builder c hc => exact Ledger.grows_builders _ _
  | memo builder key node hnode => exact Ledger.grows_builders _ _
  | instrument k c hc hk => exact Ledger.grows_instrument c hk

-- What is made with no part before `N` is made all the more with none before 0.
theorem Makes.weaken {N : Nat} {L M : Ledger} (h : Makes N L M) : Makes 0 L M := by
  have hfits {node : Node} (h : L.Fits N node) : L.Fits 0 node :=
    ⟨h.id, h.absent, Nat.zero_le _, h.opened, fun part hpart => (h.parts part hpart).weaken,
      h.hosts, h.spares⟩
  cases h with
  | openContext hnone => exact .openContext hnone
  | create c h kind hc hh => exact .create c h kind hc hh
  | request c request => exact .request c request
  | watch c h tag => exact .watch c h tag
  | node node h hs => exact .node node (hfits h) hs
  | source node host kind h hs hkind hhost => exact .source node host kind (hfits h) hs hkind hhost
  | builder c hc => exact .builder c hc
  | memo builder key node hnode => exact .memo builder key node hnode.weaken
  | instrument k c hc hk => exact .instrument k c hc hk

def Made (N : Nat) : Ledger → Ledger → Prop := Relation.ReflTransGen (Makes N)

instance {N : Nat} : IsPreorder Ledger (Made N) where
  refl _ := .refl
  trans _ _ _ := .trans

theorem Made.grows {N : Nat} {L M : Ledger} (h : Made N L M) : L.Grows M := by
  induction h with
  | refl => exact .refl L
  | tail _ h ih => exact ih.trans h.grows

-- Whatever fails on the way, what was made stays made.
def Building (N : Nat) (s t : Studio) : Prop := Made N s.ledger t.ledger

instance {N : Nat} : IsPreorder Studio (Building N) where
  refl s := refl_of (Made N) s.ledger
  trans _ _ _ := trans_of (Made N)

open Act

abbrev Builds (N : Nat) {α : Type} (act : Act α) (s : Studio) (ok : α → Ledger → Prop) : Prop :=
  Along (Building N) act s fun a t => ok a t.ledger

variable {N : Nat} {s : Studio} {α β : Type}

theorem builds_bind {act : Act β} {next : β → Act α} {mid : β → Ledger → Prop}
    {ok : α → Ledger → Prop} (h : Builds N act s mid)
    (hnext : ∀ b t, s.ledger.Grows t.ledger → mid b t.ledger → Builds N (next b) t ok) :
    Builds N (act >>= next) s ok :=
  along_bind h fun b t hst hb => hnext b t (Made.grows hst) hb

-- After an act that makes nothing of note.
theorem builds_then {act : Act β} {next : β → Act α} {ok : α → Ledger → Prop}
    (h : Keeps (Building N) act)
    (hnext : ∀ b t, s.ledger.Grows t.ledger → Builds N (next b) t ok) :
    Builds N (act >>= next) s ok :=
  along_bind (h s) fun b t hst _ => hnext b t (Made.grows hst)

instance : Plays (Building N) :=
  plays_of_ledger (fun s t h => show Made N s.ledger t.ledger by rw [h]; exact refl_of (Made N) _)
    fun s t context request h => show Made N s.ledger t.ledger by
      rw [h]
      exact .single (.request context request)

theorem Studio.hosts_create {context : ContextId} (hc : context < s.engines.size)
    (kind : NodeKind) :
    ({ s with engines := s.engines.modify context fun _ => ((s.engine context).create kind).2 } :
        Studio).ledger = s.ledger.create context ((s.engine context).create kind).1 kind := by
  rw [s.ledger_setEngine hc, Ledger.create, s.host_eq hc]
  congr 1
  funext id
  simp only [Engine.hosts, Engine.create, Engine.record, Array.getElem?_push, Function.update_apply]
  split
  case isTrue => rfl
  case isFalse => rfl

-- It is a new host node, so not the final output.
theorem builds_createHost {context : ContextId} (kind : NodeKind)
    (hready : s.ledger.Ready N context) :
    Builds N (createHost context kind) s fun host L =>
      L.host context host = some (.fresh (some kind)) ∧ host ≠ Engine.destination := by
  have hc : context < s.engines.size := hready.opened
  have hhost : s.ledger.host context ((s.engine context).create kind).1 = none := by
    rw [s.host_eq hc]
    simp [Engine.hosts, Engine.create]
  have hne : ((s.engine context).create kind).1 ≠ Engine.destination := by
    intro heq
    have houtput := hready.output
    rw [Ledger.HasHost, ← heq, hhost] at houtput
    cases houtput
  have hact : createHost context kind s = .ok ((s.engine context).create kind).1
      { s with engines := s.engines.modify context fun _ => ((s.engine context).create kind).2 } :=
    rfl
  unfold Builds Along Ends Building
  rw [hact]
  dsimp only
  rw [Studio.hosts_create hc]
  refine ⟨.single (.create context _ kind hready.opened hhost), ?_, hne⟩
  rw [Ledger.host_create, if_pos ⟨rfl, rfl⟩]

theorem Studio.ledger_watch (context : ContextId) (host : HostId) (watcher : Watcher) :
    ({ s with engines := s.engines.modify context fun _ =>
      (s.engine context).watch host watcher } : Studio).ledger =
        s.ledger.setHost context host (.watch watcher) :=
  s.ledger_changeHost (f := fun node => { node with watchers := node.watchers ++ [watcher] })
    rfl fun _ => rfl

theorem Studio.ledger_push (state : NodeState) :
    ({ s with nodes := s.nodes.push state } : Studio).ledger =
      { s.ledger with
        size := s.ledger.size + 1
        fate := Function.update s.ledger.fate s.nodes.size state.fate } := by
  ext1
  case size => simp [Studio.ledger]
  case fate =>
      funext id
      simp only [Studio.ledger, Array.getElem?_push, Function.update_apply]
      split <;> rfl
  all_goals rfl

theorem Studio.any_ended (id : NodeId) :
    (s.nodes[id]?).any (·.ended) = (s.ledger.fate id).ended := by
  simp only [Studio.ledger]
  cases s.nodes[id]? <;> rfl

-- Every one of several nodes gets the same listener.
theorem ends_listenEach (listener : Listener) {ids : List NodeId} (hnodup : ids.Nodup)
    (hlt : ∀ id ∈ ids, id < s.nodes.size) :
    Ends (ids.forM fun id => changeNode id fun state =>
        { state with listeners := state.listeners ++ [listener] }) s
      (fun _ t => t.ledger = { s.ledger with fate := fun id =>
        if id ∈ ids then (s.ledger.fate id).listen listener else s.ledger.fate id })
      fun _ _ => False := by
  induction ids generalizing s with
  | nil => simp
  | cons first rest ih =>
      rw [List.nodup_cons] at hnodup
      rw [ends_forM_cons, changeNode, ends_modify]
      refine (ih hnodup.2 ?_).mono (fun _ t ht => ?_) fun _ _ h => h
      · intro id hid
        simpa using hlt id (List.mem_cons_of_mem _ hid)
      · rw [ht, s.ledger_changeNode (hlt first List.mem_cons_self)
          (g := Fate.listen listener) fun _ => rfl]
        ext1
        case fate =>
            funext id
            simp only [Ledger.fate_setFate, List.mem_cons]
            by_cases hid : id = first
            · subst hid
              simp [hnodup.1]
            · simp [hid]
        all_goals rfl

namespace Node

variable {context : ContextId} {label : String} {duration release : Option Float}
variable {make : NodeInfo → Node}

theorem ends_enrol (hinfo : ∀ info, (make info).info = info)
    (hknown : ∀ info, ∀ id ∈ (make info).awaited, id < s.nodes.size) :
    Ends (enrol context label duration release make) s
      (fun node t => (∃ info, node = make info ∧ info.context = context) ∧
        node.id = s.ledger.size ∧ t.ledger = s.ledger.enrol node)
      fun _ _ => False := by
  let node := make ⟨s.nodes.size, context, label, length duration, length release⟩
  have hid : node.id = s.nodes.size := congrArg NodeInfo.id (hinfo _)
  have hnew (id : NodeId) (h : id ∈ node.awaited) : id ≠ node.id := by
    have := hknown _ id h
    exact fun heq => absurd (heq.trans hid) (Nat.ne_of_lt this)
  have hawaits : (node.awaited.filter fun id => !(s.nodes[id]?).any (·.ended)) =
      s.ledger.awaits node := by
    simp only [Studio.any_ended, Ledger.awaits]
  unfold enrol
  simp only [ends_bind, ends_get, ends_set]
  change Ends _ _ _ _
  rw [show make ⟨s.nodes.size, context, label, length duration, length release⟩ = node from rfl,
    hawaits]
  have hnodup : (s.ledger.awaits node).Nodup := node.nodup_awaited.filter _
  refine (ends_listenEach (.whole s.nodes.size) hnodup ?_).mono (fun _ t ht => ?_) fun _ _ h => h
  · intro id hmem
    rw [Array.size_push]
    exact Nat.lt_succ_of_lt (hknown _ id (List.mem_of_mem_filter hmem))
  · rw [ends_pure]
    refine ⟨⟨_, rfl, rfl⟩, hid, ?_⟩
    rw [ht, Studio.ledger_push]
    ext1
    case fate =>
        funext id
        simp only [Ledger.enrol, Function.update_apply]
        by_cases hnode : id = node.id
        · have hself : node.id ∉ s.ledger.awaits node := fun h =>
            hnew _ (List.mem_of_mem_filter h) rfl
          rw [hnode, if_neg hself, if_pos hid, if_pos rfl]
          rfl
        · have hold : id ≠ s.nodes.size := fun h => hnode (h.trans hid.symm)
          rw [if_neg hnode, if_neg hold, hid]
    all_goals rfl

end Node

end Patchbay
