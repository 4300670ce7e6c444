import Mathlib.Data.List.Basic
import Patchbay.Node.Basic

namespace Patchbay.Node

-- In the order in which a disconnection goes through them.
def parts : Node → List Node
  | .leaf _ _ _ _ modulators => modulators
  | .envelope _ _ _ _ => []
  | .series _ head tail => head :: tail
  | .parallel _ _ _ branches => branches
  | .wrapped _ inner others => inner :: others

-- The host nodes that belong to the node itself.
def ownHosts : Node → List HostId
  | .leaf _ host _ _ _ | .envelope _ host _ _ => [host]
  | .parallel _ input output _ => [input, output]
  | .series _ _ _ | .wrapped _ _ _ => []

-- Those that a disconnection silences: it leaves the final output as it is.
def cutHosts : Node → List HostId
  | .leaf _ host _ _ _ => if host = Engine.destination then [] else [host]
  | .envelope _ host _ _ => [host]
  | .parallel _ input output _ => [input, output]
  | .series _ _ _ | .wrapped _ _ _ => []

-- The host of a source.
def source? : Node → Option HostId
  | .leaf _ host true _ _ => some host
  | _ => none

theorem mem_ownHosts_of_cut {node : Node} {host : HostId} (h : host ∈ node.cutHosts) :
    host ∈ node.ownHosts := by
  cases node with
  | leaf info own source params modulators =>
      rw [cutHosts] at h
      split at h
      · cases h
      · exact h
  | _ => exact h

theorem mem_cutHosts_of_own {node : Node} {host : HostId} (h : host ∈ node.ownHosts)
    (hne : host ≠ Engine.destination) : host ∈ node.cutHosts := by
  cases node with
  | leaf info own source params modulators =>
      obtain rfl : host = own := by simpa [ownHosts] using h
      simp [cutHosts, hne]
  | _ => exact h

mutual
theorem of_parts {P : Node → Prop} (h : ∀ node, (∀ part ∈ node.parts, P part) → P node) :
    ∀ node, P node
  | .leaf info host source params modulators => h _ (all_of_parts h modulators)
  | .envelope info host attack release => h _ (by simp [parts])
  | .series info head tail => h _ <| by
      simpa [parts] using And.intro (of_parts h head) (all_of_parts h tail)
  | .parallel info input output branches => h _ (all_of_parts h branches)
  | .wrapped info inner others => h _ <| by
      simpa [parts] using And.intro (of_parts h inner) (all_of_parts h others)

theorem all_of_parts {P : Node → Prop} (h : ∀ node, (∀ part ∈ node.parts, P part) → P node) :
    ∀ nodes : List Node, ∀ node ∈ nodes, P node
  | [] => by simp
  | node :: rest => by simpa using And.intro (of_parts h node) (all_of_parts h rest)
end

-- The form for `induction node using Node.induct`.
theorem induct {motive : Node → Prop}
    (step : ∀ node, (∀ part ∈ node.parts, motive part) → motive node) (node : Node) :
    motive node :=
  of_parts step node

mutual
def reach : Node → List Node
  | .leaf info host source params modulators =>
    .leaf info host source params modulators :: reachAll modulators
  | .envelope info host attack release => [.envelope info host attack release]
  | .series info head tail => .series info head tail :: (head.reach ++ reachAll tail)
  | .parallel info input output branches =>
    .parallel info input output branches :: reachAll branches
  | .wrapped info inner others => .wrapped info inner others :: (inner.reach ++ reachAll others)

def reachAll : List Node → List Node
  | [] => []
  | node :: rest => node.reach ++ reachAll rest
end

theorem mem_reachAll {node : Node} {nodes : List Node} :
    node ∈ reachAll nodes ↔ ∃ root ∈ nodes, node ∈ root.reach := by
  induction nodes with
  | nil => simp [reachAll]
  | cons first rest ih => simp [reachAll, ih]

theorem mem_reach {node root : Node} :
    node ∈ root.reach ↔ node = root ∨ ∃ part ∈ root.parts, node ∈ part.reach := by
  cases root <;> simp [reach, parts, mem_reachAll]

theorem self_mem_reach (node : Node) : node ∈ node.reach := mem_reach.2 (.inl rfl)

theorem part_mem_reach {node part : Node} (h : part ∈ node.parts) : part ∈ node.reach :=
  mem_reach.2 (.inr ⟨part, h, self_mem_reach part⟩)

theorem reach_trans {inner middle outer : Node} (hinner : inner ∈ middle.reach)
    (hmiddle : middle ∈ outer.reach) : inner ∈ outer.reach := by
  induction outer using induct with
  | step outer ih =>
      rcases mem_reach.1 hmiddle with rfl | ⟨part, hpart, hreach⟩
      · exact hinner
      · exact mem_reach.2 (.inr ⟨part, hpart, ih part hpart hreach⟩)

-- The host nodes of everything that a node reaches, each with its context.
def hosts (node : Node) : List (ContextId × HostId) :=
  node.reach.flatMap fun inner => inner.ownHosts.map (inner.context, ·)

theorem mem_hosts {node : Node} {context : ContextId} {host : HostId} :
    (context, host) ∈ node.hosts ↔
      ∃ inner ∈ node.reach, inner.context = context ∧ host ∈ inner.ownHosts := by
  simp only [hosts, List.mem_flatMap, List.mem_map, Prod.mk.injEq]
  grind

theorem members_subset_parts (node : Node) : node.members ⊆ node.parts := by
  cases node <;> simp [members, parts]

theorem anyStartable_iff {nodes : List Node} :
    anyStartable nodes = true ↔ ∃ node ∈ nodes, node.isStartable = true := by
  induction nodes with
  | nil => simp [anyStartable]
  | cons first rest ih => simp [anyStartable, ih]

theorem anyEmits_iff {nodes : List Node} :
    anyEmits nodes = true ↔ ∃ node ∈ nodes, node.emitsEnded = true := by
  induction nodes with
  | nil => simp [anyEmits]
  | cons first rest ih => simp [anyEmits, ih]

-- A start that passes a part by reaches no source in it.
theorem isStartable_of_part {node part : Node} (hpart : part ∈ node.parts)
    (h : part.isStartable = true) : node.isStartable = true := by
  cases node with
  | envelope info host attack release => simp [parts] at hpart
  | leaf info host source params modulators =>
      have hany : anyStartable modulators = true := anyStartable_iff.2 ⟨part, hpart, h⟩
      simp [isStartable, hany]
  | parallel info input output branches =>
      have hany : anyStartable branches = true := anyStartable_iff.2 ⟨part, hpart, h⟩
      simp [isStartable, hany]
  | series info head tail =>
      rcases List.mem_cons.1 hpart with rfl | hpart
      · simp [isStartable, h]
      · simp [isStartable, anyStartable_iff.2 ⟨part, hpart, h⟩]
  | wrapped info inner others =>
      rcases List.mem_cons.1 hpart with rfl | hpart
      · simp [isStartable, h]
      · simp [isStartable, anyStartable_iff.2 ⟨part, hpart, h⟩]

theorem isStartable_of_reach_source {node leaf : Node} (hleaf : leaf ∈ node.reach)
    (hsource : leaf.source?.isSome) : node.isStartable = true := by
  induction node using induct with
  | step node ih =>
      rcases mem_reach.1 hleaf with rfl | ⟨part, hpart, hreach⟩
      · revert hsource
        fun_cases source? leaf <;> simp [isStartable]
      · exact isStartable_of_part hpart (ih part hpart hreach)

-- Composed nodes end with their members; leaves and envelopes have none.
def IsWhole : Node → Prop
  | .leaf _ _ _ _ _ | .envelope _ _ _ _ => False
  | .series _ _ _ | .parallel _ _ _ _ | .wrapped _ _ _ => True

theorem emitsEnded_iff_member {node : Node} (h : node.IsWhole) :
    node.emitsEnded = true ↔ ∃ member ∈ node.members, member.emitsEnded = true := by
  cases node <;> simp_all [IsWhole, emitsEnded, members, anyEmits_iff]

theorem mem_awaited {node : Node} {id : NodeId} :
    id ∈ node.awaited ↔ ∃ member ∈ node.members, member.emitsEnded = true ∧ member.id = id := by
  simp [awaited, List.mem_eraseDups, and_assoc]

theorem nodup_eraseDups (ids : List NodeId) : ids.eraseDups.Nodup := by
  induction h : ids.length using Nat.strongRecOn generalizing ids with
  | ind n ih =>
      cases ids with
      | nil => simp
      | cons id rest =>
          rw [List.eraseDups_cons, List.nodup_cons]
          constructor
          · simp [List.mem_eraseDups]
          · apply ih _ _ _ rfl
            have := List.length_filter_le (fun x => !x == id) rest
            simp only [List.length_cons] at h
            omega

theorem nodup_awaited (node : Node) : node.awaited.Nodup := nodup_eraseDups _

theorem awaited_ne_nil_iff {node : Node} (h : node.IsWhole) :
    node.awaited ≠ [] ↔ node.emitsEnded = true := by
  rw [emitsEnded_iff_member h]
  constructor
  · intro hne
    obtain ⟨id, hid⟩ := List.exists_mem_of_ne_nil _ hne
    obtain ⟨member, hmember, hemits, -⟩ := mem_awaited.1 hid
    exact ⟨member, hmember, hemits⟩
  · rintro ⟨member, hmember, hemits⟩
    exact List.ne_nil_of_mem (mem_awaited.2 ⟨member, hmember, hemits, rfl⟩)

theorem awaited_eq_nil {node : Node} (h : ¬node.IsWhole) : node.awaited = [] := by
  cases node <;> simp_all [IsWhole, awaited, members]

-- The output of a chain is that of one of its nodes.
theorem lastHost_eq (head : Node) (tail : List Node) :
    ∃ part ∈ head :: tail, lastHost head.outputHost tail = part.outputHost := by
  induction tail generalizing head with
  | nil => exact ⟨head, List.mem_cons_self, rfl⟩
  | cons next rest ih =>
      obtain ⟨part, hpart, heq⟩ := ih next
      exact ⟨part, List.mem_cons_of_mem head hpart, heq⟩

end Patchbay.Node
