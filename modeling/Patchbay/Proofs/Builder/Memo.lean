import Mathlib.Data.Option.Basic
import Patchbay.Proofs.Builder.Runs

namespace Patchbay

open Act

structure Finding where
  id : String
  node : Node
  -- Rather than kept from before.
  built : Bool

-- What the builder keeps under an id.
def Studio.memoized (s : Studio) (b : BuilderId) (id : String) : Option Node :=
  Keyed.get? ((s.builders[b]?).getD ⟨0, []⟩).memo id

-- What is found after an act that succeeds.
def Act.onward {α : Type} (act : Act α) (s : Studio) (next : Studio → List Finding) : List Finding :=
  match act s with
  | .ok _ t => next t
  | .error _ _ => []

mutual
-- What the builder finds when it builds a patch, in the order in which the nodes come about.
def Patch.findings (b : BuilderId) : Patch → Studio → List Finding
  | .connect _ patches, s => Patch.allFindings b patches s
  | .gain level, s => level.findings b s
  | .oscillator _ frequency detune, s =>
    frequency.findings b s ++
      (Builder.drive b frequency).onward s fun t => Control.findingsIfGiven b detune t
  | .biquadFilter _ frequency q detune, s =>
    frequency.findings b s ++ (Builder.drive b frequency).onward s fun t =>
      Control.findingsIfGiven b q t ++
        (Builder.driveIfGiven b q).onward t fun u => Control.findingsIfGiven b detune u
  | .delay time _, s => time.findings b s
  | .memoize id patch, s =>
    if id.isEmpty then []
    else
      match s.memoized b id with
      | some node => [⟨id, node, false⟩]
      | none => patch.findings b s ++
        match Builder.build b patch s with
        | .ok node _ => [⟨id, node, true⟩]
        | .error _ _ => []
  | .envelope _ _, _ | .constant _, _ | .noise _ _, _ | .convolver _ _ _, _ | .destination, _ => []

def Patch.allFindings (b : BuilderId) : List Patch → Studio → List Finding
  | [], _ => []
  | patch :: rest, s =>
    patch.findings b s ++ (Builder.build b patch).onward s fun t => Patch.allFindings b rest t

def Control.findings (b : BuilderId) : Control → Studio → List Finding
  | .value _, _ => []
  | .node patch, s => patch.findings b s

def Control.findingsIfGiven (b : BuilderId) : Option Control → Studio → List Finding
  | none, _ => []
  | some control, s => control.findings b s
end

section Onward

variable {α β : Type} {s : Studio}

theorem onward_bind (act : Act β) (rest : β → Act α) (next : Studio → List Finding) :
    (act >>= rest).onward s next = match act s with
      | .ok b t => (rest b).onward t next
      | .error _ _ => [] := by
  have hact : (act >>= rest) s = EStateM.bind act rest s := rfl
  unfold onward
  rw [hact, EStateM.bind]
  cases act s <;> rfl

theorem onward_map (act : Act β) (f : β → α) (next : Studio → List Finding) :
    (do return f (← act) : Act α).onward s next = act.onward s next := onward_bind _ _ _

variable {b : BuilderId}

theorem onward_drive (control : Control) (next : Studio → List Finding) :
    (Builder.drive b control).onward s next = (Builder.buildAll b control.parts).onward s next := by
  cases control with
  | value x => rfl
  | node patch =>
      simp only [Builder.drive, Control.parts, Builder.buildAll, pure_bind, onward_map]

theorem onward_driveIfGiven (control : Option Control) (next : Studio → List Finding) :
    (Builder.driveIfGiven b control).onward s next =
      (Builder.buildAll b (Control.partsIfGiven control)).onward s next := by
  cases control with
  | none => rfl
  | some control =>
      rw [Builder.driveIfGiven, onward_map]
      exact onward_drive control next

end Onward

section Parts

variable {b : BuilderId}

theorem Patch.allFindings_append (patches more : List Patch) (s : Studio) :
    allFindings b (patches ++ more) s = allFindings b patches s ++
      (Builder.buildAll b patches).onward s fun t => allFindings b more t := by
  induction patches generalizing s with
  | nil => rfl
  | cons patch rest ih =>
      simp only [List.cons_append, allFindings, List.append_assoc]
      congr 1
      rw [Builder.buildAll, onward_bind, onward, onward]
      cases Builder.build b patch s with
      | error e t => rfl
      | ok node t => simp only [ih, onward_map]

theorem Control.findings_eq (control : Control) (s : Studio) :
    control.findings b s = Patch.allFindings b control.parts s := by
  cases control with
  | value x => rfl
  | node patch =>
      simp only [findings, parts, Patch.allFindings, onward]
      cases Builder.build b patch s <;> simp

theorem Control.findingsIfGiven_eq (control : Option Control) (s : Studio) :
    findingsIfGiven b control s = Patch.allFindings b (partsIfGiven control) s := by
  cases control with
  | none => rfl
  | some control => exact control.findings_eq s

-- Apart from ids, a patch finds what its parts find, one after the other.
theorem Patch.findings_eq {patch : Patch} (h : patch.key? = none) (s : Studio) :
    patch.findings b s = allFindings b patch.parts s := by
  cases patch with
  | connect route patches => rfl
  | gain level => exact level.findings_eq s
  | oscillator waveform frequency detune =>
      simp only [findings, parts, allFindings_append, Control.findings_eq, onward_drive,
        Control.findingsIfGiven_eq]
  | biquadFilter type frequency q detune =>
      simp only [findings, parts, allFindings_append, Control.findings_eq, onward_drive,
        onward_driveIfGiven, Control.findingsIfGiven_eq]
  | delay time feedback => exact time.findings_eq s
  | memoize id patch => cases h
  | envelope | constant | noise | convolver | destination => rfl

end Parts

namespace Patch

-- An id stands within its own body.
def Nests (id : String) (patch : Patch) : Prop :=
  ∃ body, (memoize id body).Within patch ∧ ∃ inner, (memoize id inner).Within body

theorem not_nests_part {id : String} {patch part : Patch} (h : ¬patch.Nests id)
    (hpart : part ∈ patch.parts) : ¬part.Nests id := by
  rintro ⟨body, hbody, hinner⟩
  exact h ⟨body, .part hpart hbody, hinner⟩

theorem mem_allFindings {b : BuilderId} {patches : List Patch} {s : Studio} {finding : Finding}
    (h : finding ∈ allFindings b patches s) : ∃ patch ∈ patches, ∃ t, finding ∈ patch.findings b t := by
  induction patches generalizing s with
  | nil => cases h
  | cons patch rest ih =>
      rw [allFindings, onward] at h
      rcases List.mem_append.1 h with h | h
      · exact ⟨patch, List.mem_cons_self, s, h⟩
      · split at h
        case h_1 =>
            obtain ⟨other, hother, t, hfinding⟩ := ih h
            exact ⟨other, List.mem_cons_of_mem _ hother, t, hfinding⟩
        case h_2 => cases h

-- Only ids that stand there are found.
theorem within_of_finding {b : BuilderId} {patch : Patch} {s : Studio} {finding : Finding}
    (h : finding ∈ patch.findings b s) : ∃ body, (memoize finding.id body).Within patch := by
  induction patch using induct generalizing s with
  | step patch ih =>
      cases hkey : patch.key? with
      | none =>
          rw [findings_eq hkey] at h
          obtain ⟨part, hpart, t, hfinding⟩ := mem_allFindings h
          obtain ⟨body, hbody⟩ := ih part hpart hfinding
          exact ⟨body, .part hpart hbody⟩
      | some id =>
          obtain ⟨body, rfl⟩ := eq_of_key hkey
          have hself {finding' : Finding} (hid : finding'.id = id) :
              ∃ body', (memoize finding'.id body').Within (memoize id body) :=
            ⟨body, hid ▸ .self⟩
          rw [findings] at h
          split at h
          case isTrue => cases h
          case isFalse =>
              split at h
              case h_1 => exact hself (by rw [List.mem_singleton.1 h])
              case h_2 =>
                  rcases List.mem_append.1 h with h | h
                  · obtain ⟨body', hbody'⟩ := ih body (by simp [parts]) h
                    exact ⟨body', .part (by simp [parts]) hbody'⟩
                  · split at h
                    case h_1 => exact hself (by rw [List.mem_singleton.1 h])
                    case h_2 => cases h

end Patch

-- All that was found under the id so far is what is kept under it, and it was built once at most.
structure Agrees (id : String) (kept : Option Node) (found : List Finding) : Prop where
  kept : ∀ finding ∈ found, finding.id = id → kept = some finding.node
  once : found.countP (fun finding => finding.id == id && finding.built) ≤ 1

namespace Agrees

variable {id : String} {kept : Option Node} {found : List Finding}

-- What is kept already is found again.
theorem again {key : String} {node : Node} (h : Agrees id kept found)
    (hkept : key = id → kept = some node) : Agrees id kept (found ++ [⟨key, node, false⟩]) where
  kept finding hfinding hid := by
    rcases List.mem_append.1 hfinding with hfinding | hfinding
    · exact h.kept finding hfinding hid
    · obtain rfl := List.mem_singleton.1 hfinding
      exact hkept hid
  once := by simpa using h.once

-- Another id is built.
theorem other {key : String} {node : Node} (h : Agrees id kept found) (hne : key ≠ id) :
    Agrees id kept (found ++ [⟨key, node, true⟩]) where
  kept finding hfinding hid := by
    rcases List.mem_append.1 hfinding with hfinding | hfinding
    · exact h.kept finding hfinding hid
    · obtain rfl := List.mem_singleton.1 hfinding
      exact absurd hid hne
  once := by simpa [hne] using h.once

-- It is built for the first time.
theorem first {node : Node} (hnone : ∀ finding ∈ found, finding.id ≠ id) :
    Agrees id (some node) (found ++ [⟨id, node, true⟩]) where
  kept finding hfinding hid := by
    rcases List.mem_append.1 hfinding with hfinding | hfinding
    · exact absurd hid (hnone finding hfinding)
    · rw [List.mem_singleton.1 hfinding]
  once := by
    have hzero : found.countP (fun finding => finding.id == id && finding.built) = 0 := by
      refine List.countP_eq_zero.2 fun finding hfinding => ?_
      simp [hnone finding hfinding]
    simp [hzero]

end Agrees

def Idle (b : BuilderId) (s t : Studio) : Prop :=
  b < s.builders.size → b < t.builders.size ∧ t.builders[b]? = s.builders[b]?

namespace Idle

variable {b : BuilderId} {s t : Studio}

instance : IsPreorder Studio (Idle b) where
  refl _ hb := ⟨hb, rfl⟩
  trans _ _ _ h h' hb := ⟨(h' (h hb).1).1, (h' (h hb).1).2.trans (h hb).2⟩

theorem of_eq (h : t.builders = s.builders) : Idle b s t := fun hb => by rw [h]; exact ⟨hb, rfl⟩

theorem of_shelved (s t : Studio) (h : Shelved s t) : Idle b s t := of_eq h.builders

theorem keeps_where_there {α : Type} {act : Act α}
    (h : ∀ s, b < s.builders.size → Along (Idle b) act s fun _ _ => True) : Keeps (Idle b) act :=
  keeps_where (fun _ _ hvoid hb => absurd hb hvoid) h

-- A builder that is opened comes after all that there are.
theorem along_new (context : ContextId) (hb : b < s.builders.size) :
    Along (Idle b) (Builder.new context) s fun other _ => other ≠ b := by
  unfold Along Builder.new
  rw [ends_modifyGet]
  have hne : b ≠ s.builders.size := Nat.ne_of_lt hb
  refine ⟨fun _ => ⟨?_, by simp [Array.getElem?_push, hne]⟩, hne.symm⟩
  simpa using Nat.lt_succ_of_lt hb

theorem keeps_memoize {other : BuilderId} (hne : other ≠ b) (key : String) (node : Node) :
    Keeps (Idle b) (Builder.memoize other key node) :=
  keeps_modify fun s hb => ⟨by simpa using hb, by simp [Array.getElem?_modify, hne]⟩

instance : Crafts (Idle b) := .of_finer of_shelved

theorem keeps_build {other : BuilderId} (hne : other ≠ b) (patch : Patch) :
    Keeps (Idle b) (Builder.build other patch) := Builder.keeps_build (keeps_memoize hne) patch

instance : Drafts (Idle b) where
  read read := (Shelved.keeps_reading read).mono of_shelved
  opened context := keeps_where_there fun _ hb => (along_new context hb).mono fun _ _ _ _ => trivial
  patched context source := by
    have hread := (Shelved.keeps_reading (Patch.parse source)).mono (of_shelved (b := b))
    refine keeps_where_there fun s hb => along_bind (hread s) fun patch t hst _ => ?_
    exact along_bind (along_new context (hst hb).1) fun other u _ hne => keeps_build hne patch u

instance : Paces (Idle b) fun _ _ => True :=
  .of_finer of_shelved (fun _ _ => Shelved.of_untouched) (fun _ _ _ => along_openContext (of_eq rfl))
    Shelved.keeps_disconnect

end Idle

-- What is memoized is found under its id, and under no other.
theorem Studio.memoized_memoize {b : BuilderId} {s : Studio} (hb : b < s.builders.size)
    (id other : String) (node : Node) :
    ((Builder.memoize b id node).after s).memoized b other =
      if id = other then some node else s.memoized b other := by
  rw [Builder.memoize, after_modify, memoized, memoized, ← Keyed.get?_insert]
  simp [Array.getElem?_modify, Array.getElem?_eq_getElem hb]

-- So far the builder has found one node under the id, and keeps it.
structure Holding (b : BuilderId) (id : String) (s : Studio) (found : List Finding) : Prop where
  there : b < s.builders.size
  agrees : Agrees id (s.memoized b id) found

namespace Holding

variable {b : BuilderId} {id : String} {s t : Studio} {found : List Finding}

theorem idle (h : Holding b id s found) (hst : Idle b s t) : Holding b id t found := by
  obtain ⟨hb, hsame⟩ := hst h.there
  exact ⟨hb, by simpa only [Studio.memoized, hsame] using h.agrees⟩

theorem after_of_keeps {α : Type} {act : Act α} (h : Holding b id s found)
    (hact : Keeps (Idle b) act) : Holding b id (act.after s) found :=
  after_of_ends (P := fun t => Holding b id t found)
    (Ends.mono (hact s) (fun _ _ ht => h.idle ht.1) fun _ _ ht => h.idle ht)

theorem memoize {key : String} {node : Node} (h : Holding b id s found)
    (hnone : key = id → ∀ finding ∈ found, finding.id ≠ id) :
    Holding b id ((Builder.memoize b key node).after s) (found ++ [⟨key, node, true⟩]) := by
  refine ⟨by simpa [Builder.memoize, after_modify] using h.there, ?_⟩
  rw [Studio.memoized_memoize h.there]
  split
  case isTrue heq =>
      subst heq
      exact .first (hnone rfl)
  case isFalse hne => exact h.agrees.other hne

theorem buildAll {patches : List Patch} (h : Holding b id s found)
    (hbuild : ∀ patch ∈ patches, ∀ {s} {found'}, found ⊆ found' → Holding b id s found' →
      Holding b id ((Builder.build b patch).after s) (found' ++ patch.findings b s)) :
    Holding b id ((Builder.buildAll b patches).after s) (found ++ Patch.allFindings b patches s) := by
  induction patches generalizing s found with
  | nil =>
      rw [Patch.allFindings, List.append_nil]
      exact h
  | cons patch rest ih =>
      have hfirst := hbuild patch List.mem_cons_self (List.Subset.refl _) h
      rw [Builder.buildAll, after_bind, Patch.allFindings, onward]
      unfold Act.after at hfirst
      cases hact : Builder.build b patch s with
      | error e t => simpa [hact] using hfirst
      | ok node t =>
          rw [hact] at hfirst
          have hrest := ih hfirst fun other hother _ _ hfound =>
            hbuild other (List.mem_cons_of_mem _ hother) fun _ hmem => hfound (by simp [hmem])
          simpa only [after_map, List.append_assoc] using hrest

theorem none_found (h : Holding b id s found) (hkept : s.memoized b id = none) :
    ∀ finding ∈ found, finding.id ≠ id := by
  intro finding hfinding hid
  have hsome := h.agrees.kept finding hfinding hid
  rw [hkept] at hsome
  cases hsome

-- A body that does not hold its id finds nothing under it.
theorem body_other {body : Patch} (h : Holding b id s found) (hkept : s.memoized b id = none)
    (hnested : ¬(Patch.memoize id body).Nests id) :
    ∀ finding ∈ found ++ body.findings b s, finding.id ≠ id := by
  intro finding hfinding
  rcases List.mem_append.1 hfinding with hfinding | hfinding
  · exact h.none_found hkept finding hfinding
  · rintro rfl
    obtain ⟨inner, hinner⟩ := Patch.within_of_finding hfinding
    exact hnested ⟨body, .self, inner, hinner⟩

-- Its parts come first. Under an id, what is built is kept only when that is done, which is why the
-- id must not stand within the body unless something has been found under it before.
theorem build {patch : Patch} (h : Holding b id s found)
    (hnested : (∀ finding ∈ found, finding.id ≠ id) → ¬patch.Nests id) :
    Holding b id ((Builder.build b patch).after s) (found ++ patch.findings b s) := by
  induction patch using Patch.induct generalizing s found with
  | step patch ih =>
      cases hkey : patch.key? with
      | none =>
          have hparts : Holding b id ((Builder.buildAll b patch.parts).after s)
              (found ++ patch.findings b s) := by
            rw [Patch.findings_eq hkey]
            refine h.buildAll fun part hpart _ found' hfound hpart' => ?_
            refine ih part hpart hpart' fun hnone => Patch.not_nests_part (hnested ?_) hpart
            exact fun finding hfinding => hnone finding (hfound hfinding)
          rw [Builder.build_eq hkey, Builder.after_state, after_bind]
          unfold Act.after at hparts
          cases hact : Builder.buildAll b patch.parts s with
          | error e t => simpa only [hact] using hparts
          | ok nodes t =>
              rw [hact] at hparts
              exact hparts.after_of_keeps (patch.keeps_assemble nodes)
      | some key =>
          obtain ⟨body, rfl⟩ := Patch.eq_of_key hkey
          rw [Patch.findings, Builder.build_memoize]
          split
          case isTrue =>
              rw [List.append_nil]
              exact h
          case isFalse =>
              rw [Builder.after_state]
              change Holding b id (Act.after (match s.memoized b key with
                | some node => pure node
                | none => do
                  let node ← Builder.build b body
                  Builder.memoize b key node
                  return node) s) _
              cases hkept : s.memoized b key with
              | some node =>
                  refine ⟨h.there, h.agrees.again ?_⟩
                  rintro rfl
                  exact hkept
              | none =>
                  have hpart : body ∈ (Patch.memoize key body).parts := List.mem_singleton.2 rfl
                  have hbody := ih body hpart h fun hnone =>
                    Patch.not_nests_part (hnested hnone) hpart
                  have hother (heq : key = id) : ∀ finding ∈ found ++ body.findings b s,
                      finding.id ≠ id := by
                    subst heq
                    exact h.body_other hkept (hnested (h.none_found hkept))
                  dsimp only
                  rw [after_bind]
                  unfold Act.after at hbody
                  cases hact : Builder.build b body s with
                  | error e t => simpa [hact] using hbody
                  | ok node t =>
                      rw [hact] at hbody
                      rw [← List.append_assoc]
                      exact hbody.memoize hother

end Holding

-- What the builder builds then, and in which studio. A text is read before.
def Deed.work? (b : BuilderId) (s : Studio) : Deed → Option (Studio × Patch)
  | .build builder patch => if builder = b ∧ b < s.builders.size then some (s, patch) else none
  | .give (.make context (.patchWith builder source)) =>
    if builder = b ∧ context < s.engines.size ∧ b < s.builders.size then
      match reading (Patch.parse source) s with
      | .ok patch t => some (t, patch)
      | .error _ _ => none
    else none
  | .give _ => none

namespace Studio

-- All that the builder builds in the course of the deeds.
def works (b : BuilderId) (s : Studio) : List Deed → List (Studio × Patch)
  | [] => []
  | deed :: rest => (deed.work? b s).toList ++ works b (deed.after s) rest

def found (b : BuilderId) (s : Studio) (deeds : List Deed) : List Finding :=
  (s.works b deeds).flatMap fun work => work.2.findings b work.1

end Studio

namespace Deed

variable {b : BuilderId} {s : Studio}

end Deed

namespace Studio

def opened : Studio := (new 44100).done [.give (.openBuilder 0)]

def nesting : List Deed :=
  [.build 0 (.memoize "a" (.connect .serial [.memoize "a" (.gain (.value 1)), .gain (.value 1)]))]

end Studio

end Patchbay
