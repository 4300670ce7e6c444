import Mathlib.Order.Defs.Unbundled
import Patchbay.Proofs.Ledger.Basic

namespace Patchbay

structure HostFate.Grows (f g : HostFate) : Prop where
  kind : g.kind = f.kind
  starts : f.starts = true → g.starts = true
  stops : f.stops = true → g.stops = true
  ended : f.ended = true → g.ended = true
  cut : f.cut = true → g.cut = true

theorem HostFate.Grows.refl (f : HostFate) : f.Grows f := ⟨rfl, id, id, id, id⟩

theorem HostFate.Grows.trans {f g h : HostFate} (hfg : f.Grows g) (hgh : g.Grows h) : f.Grows h where
  kind := hgh.kind.trans hfg.kind
  starts hf := hgh.starts (hfg.starts hf)
  stops hf := hgh.stops (hfg.stops hf)
  ended hf := hgh.ended (hfg.ended hf)
  cut hf := hgh.cut (hfg.cut hf)

structure Fate.Grows (f g : Fate) : Prop where
  node : ∀ node, f.node = some node → g.node = some node
  ended : f.ended = true → g.ended = true
  cut : f.cut = true → g.cut = true

theorem Fate.Grows.refl (f : Fate) : f.Grows f := ⟨fun _ h => h, id, id⟩

structure Roster.Grows (r q : Roster) : Prop where
  context : q.context = r.context
  played : r.played <+: q.played

theorem Roster.Grows.refl (r : Roster) : r.Grows r := ⟨rfl, List.prefix_refl _⟩

namespace Ledger

structure Grows (L M : Ledger) : Prop where
  size : L.size ≤ M.size
  contexts : L.contexts ≤ M.contexts
  fate : ∀ id, (L.fate id).Grows (M.fate id)
  host : ∀ c h f, L.host c h = some f → ∃ g, M.host c h = some g ∧ f.Grows g
  roster : ∀ k r, L.roster k = some r → ∃ q, M.roster k = some q ∧ r.Grows q

theorem Grows.refl (L : Ledger) : L.Grows L where
  size := Nat.le_refl _
  contexts := Nat.le_refl _
  fate _ := .refl _
  host _ _ f hf := ⟨f, hf, .refl f⟩
  roster _ r hr := ⟨r, hr, .refl r⟩

theorem Grows.trans {L M K : Ledger} (hLM : L.Grows M) (hMK : M.Grows K) : L.Grows K where
  size := Nat.le_trans hLM.size hMK.size
  contexts := Nat.le_trans hLM.contexts hMK.contexts
  fate id := by
    have h := hLM.fate id
    have h' := hMK.fate id
    exact ⟨fun node hn => h'.node node (h.node node hn), fun he => h'.ended (h.ended he),
      fun hc => h'.cut (h.cut hc)⟩
  host c h f hf := by
    obtain ⟨g, hg, hfg⟩ := hLM.host c h f hf
    obtain ⟨k, hk, hgk⟩ := hMK.host c h g hg
    exact ⟨k, hk, hfg.trans hgk⟩
  roster k r hr := by
    obtain ⟨q, hq, hrq⟩ := hLM.roster k r hr
    obtain ⟨p, hp, hqp⟩ := hMK.roster k q hq
    exact ⟨p, hp, hqp.context.trans hrq.context, hrq.played.trans hqp.played⟩

section Entries

variable (L : Ledger)

theorem grows_setFate (id : NodeId) {f : Fate → Fate} (hf : (L.fate id).Grows (f (L.fate id))) :
    L.Grows (L.setFate id f) where
  size := Nat.le_refl _
  contexts := Nat.le_refl _
  fate j := by
    rw [fate_setFate]
    split
    case isTrue hj => exact hj ▸ hf
    case isFalse => exact .refl _
  host _ _ f hf := ⟨f, hf, .refl f⟩
  roster _ r hr := ⟨r, hr, .refl r⟩

theorem grows_setHost (c : ContextId) (h : HostId) {g : HostFate → HostFate}
    (hg : ∀ f : HostFate, f.Grows (g f)) : L.Grows (L.setHost c h g) where
  size := Nat.le_refl _
  contexts := Nat.le_refl _
  fate _ := .refl _
  host c' h' f hf := by
    rw [host_setHost]
    split
    case isTrue hch =>
        obtain ⟨rfl, rfl⟩ := hch
        exact ⟨g f, by rw [hf]; rfl, hg f⟩
    case isFalse => exact ⟨f, hf, .refl f⟩
  roster _ r hr := ⟨r, hr, .refl r⟩

theorem grows_setRoster (k : InstrumentId) {q : Roster → Roster} (hq : ∀ r : Roster, r.Grows (q r)) :
    L.Grows (L.setRoster k q) where
  size := Nat.le_refl _
  contexts := Nat.le_refl _
  fate _ := .refl _
  host _ _ f hf := ⟨f, hf, .refl f⟩
  roster k' r hr := by
    rw [roster_setRoster]
    split
    case isTrue hk =>
        subst hk
        exact ⟨q r, by rw [hr]; rfl, hq r⟩
    case isFalse => exact ⟨r, hr, .refl r⟩

end Entries

-- The node stands in the ledger under its own number.
def Knows (L : Ledger) (node : Node) : Prop := (L.fate node.id).node = some node

def HasHost (L : Ledger) (context : ContextId) (host : HostId) : Prop :=
  (L.host context host).isSome = true

def HostEnded (L : Ledger) (context : ContextId) (host : HostId) : Prop :=
  (L.host context host).any HostFate.ended = true

variable {L M : Ledger} {node : Node}

theorem Knows.grow (h : L.Knows node) (hLM : L.Grows M) : M.Knows node :=
  (hLM.fate node.id).node node h

theorem HasHost.grow {context : ContextId} {host : HostId} (h : L.HasHost context host)
    (hLM : L.Grows M) : M.HasHost context host := by
  obtain ⟨f, hf⟩ := Option.isSome_iff_exists.1 h
  obtain ⟨g, hg, -⟩ := hLM.host context host f hf
  exact Option.isSome_iff_exists.2 ⟨g, hg⟩

theorem HostEnded.grow {context : ContextId} {host : HostId} (h : L.HostEnded context host)
    (hLM : L.Grows M) : M.HostEnded context host := by
  obtain ⟨f, hf, hended⟩ := (Option.any_eq_true _ _).1 h
  obtain ⟨g, hg, hgrows⟩ := hLM.host context host f hf
  exact (Option.any_eq_true _ _).2 ⟨g, hg, hgrows.ended hended⟩

-- Where nodes can be made, with numbers from `N` on.
structure Ready (L : Ledger) (N : Nat) (context : ContextId) : Prop where
  late : N ≤ L.size
  opened : context < L.contexts
  output : L.HasHost context Engine.destination

theorem Ready.grow {N : Nat} {context : ContextId} (h : L.Ready N context) (hLM : L.Grows M) :
    M.Ready N context :=
  ⟨Nat.le_trans h.late hLM.size, Nat.lt_of_lt_of_le h.opened hLM.contexts, h.output.grow hLM⟩

theorem Ready.weaken {N : Nat} {context : ContextId} (h : L.Ready N context) : L.Ready 0 context :=
  ⟨Nat.zero_le _, h.opened, h.output⟩

-- What a new node may be composed of: nodes that are known, none of them before number `N`.
structure Offers (L : Ledger) (N : Nat) (node : Node) : Prop where
  known : L.Knows node
  late : N ≤ node.id
  ready : L.Ready N node.context

theorem Offers.grow {N : Nat} (h : L.Offers N node) (hLM : L.Grows M) : M.Offers N node :=
  ⟨h.known.grow hLM, h.late, h.ready.grow hLM⟩

theorem Offers.weaken {N : Nat} (h : L.Offers N node) : L.Offers 0 node :=
  ⟨h.known, Nat.zero_le _, h.ready.weaken⟩

end Ledger

-- A caller can only stop and ask about nodes that are known.
def Reply.Known (L : Ledger) : Reply Node → Prop
  | .done => True
  | .stop node next => L.Knows node ∧ next.Known L
  | .ask node _ reply next => L.Knows node ∧ reply.Known L ∧ next.Known L

theorem Reply.Known.grow {L M : Ledger} {reply : Reply Node} (h : reply.Known L) (hLM : L.Grows M) :
    reply.Known M := by
  induction reply with
  | done => trivial
  | stop node next ih => exact ⟨h.1.grow hLM, ih h.2⟩
  | ask node tag reply next ihReply ihNext => exact ⟨h.1.grow hLM, ihReply h.2.1, ihNext h.2.2⟩

end Patchbay
