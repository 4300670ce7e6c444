import Patchbay.Proofs.Builder.Buildable
import Patchbay.Proofs.Builder.Memo
import Patchbay.Proofs.Studio.Surroundings

namespace Patchbay

open Act

mutual
-- Each body in the place of its id.
def Patch.inlined : Patch → Patch
  | .connect route patches => .connect route (Patch.allInlined patches)
  | .gain level => .gain level.inlined
  | .oscillator waveform frequency detune =>
    .oscillator waveform frequency.inlined (Control.inlinedIfGiven detune)
  | .biquadFilter type frequency q detune =>
    .biquadFilter type frequency.inlined (Control.inlinedIfGiven q) (Control.inlinedIfGiven detune)
  | .envelope attack release => .envelope attack release
  | .delay time feedback => .delay time.inlined feedback
  | .constant value => .constant value
  | .noise duration looping => .noise duration looping
  | .convolver duration decay reverse => .convolver duration decay reverse
  | .memoize _ body => body.inlined
  | .destination => .destination

def Patch.allInlined : List Patch → List Patch
  | [] => []
  | patch :: rest => patch.inlined :: Patch.allInlined rest

def Control.inlined : Control → Control
  | .value x => .value x
  | .node patch => .node patch.inlined

def Control.inlinedIfGiven : Option Control → Option Control
  | none => none
  | some control => some control.inlined
end

mutual
-- Each id as often as it stands in the patch.
def Patch.ids : Patch → List String
  | .connect _ patches => Patch.allIds patches
  | .gain level => level.ids
  | .oscillator _ frequency detune => frequency.ids ++ Control.idsIfGiven detune
  | .biquadFilter _ frequency q detune =>
    frequency.ids ++ (Control.idsIfGiven q ++ Control.idsIfGiven detune)
  | .delay time _ => time.ids
  | .memoize id body => id :: body.ids
  | .envelope _ _ | .constant _ | .noise _ _ | .convolver _ _ _ | .destination => []

def Patch.allIds : List Patch → List String
  | [] => []
  | patch :: rest => patch.ids ++ Patch.allIds rest

def Control.ids : Control → List String
  | .value _ => []
  | .node patch => patch.ids

def Control.idsIfGiven : Option Control → List String
  | none => []
  | some control => control.ids
end

theorem Patch.allInlined_eq (patches : List Patch) : allInlined patches = patches.map inlined := by
  induction patches with
  | nil => rfl
  | cons patch rest ih => rw [allInlined, ih, List.map_cons]

theorem Patch.allIds_eq (patches : List Patch) : allIds patches = patches.flatMap ids := by
  induction patches with
  | nil => rfl
  | cons patch rest ih => rw [allIds, ih, List.flatMap_cons]

namespace Control

theorem parts_inlined (control : Control) : control.inlined.parts = control.parts.map Patch.inlined := by
  cases control <;> rfl

theorem partsIfGiven_inlined (control : Option Control) :
    partsIfGiven (inlinedIfGiven control) = (partsIfGiven control).map Patch.inlined := by
  cases control with
  | none => rfl
  | some control => exact control.parts_inlined

theorem ids_eq (control : Control) : control.ids = control.parts.flatMap Patch.ids := by
  cases control with
  | value x => rfl
  | node patch => exact (List.flatMap_singleton Patch.ids patch).symm

theorem idsIfGiven_eq (control : Option Control) :
    idsIfGiven control = (partsIfGiven control).flatMap Patch.ids := by
  cases control with
  | none => rfl
  | some control => exact control.ids_eq

theorem draw_inlined (control : Control) (nodes : List Node) :
    control.inlined.draw nodes = control.draw nodes := by
  cases control with
  | value x => rfl
  | node patch => cases nodes <;> rfl

theorem drawIfGiven_inlined (control : Option Control) (nodes : List Node) :
    drawIfGiven (inlinedIfGiven control) nodes = drawIfGiven control nodes := by
  cases control with
  | none => rfl
  | some control => simp only [inlinedIfGiven, drawIfGiven, draw_inlined]

end Control

namespace Patch

variable {patch : Patch}

theorem key?_inlined (h : patch.key? = none) : patch.inlined.key? = none := by
  cases patch with
  | memoize id body => cases h
  | _ => rfl

theorem parts_inlined (h : patch.key? = none) : patch.inlined.parts = patch.parts.map inlined := by
  cases patch with
  | connect route patches => exact allInlined_eq patches
  | gain level => exact level.parts_inlined
  | oscillator waveform frequency detune =>
      simp only [inlined, parts, Control.parts_inlined, Control.partsIfGiven_inlined, List.map_append]
  | biquadFilter type frequency q detune =>
      simp only [inlined, parts, Control.parts_inlined, Control.partsIfGiven_inlined, List.map_append]
  | delay time feedback => exact time.parts_inlined
  | memoize id body => cases h
  | envelope | constant | noise | convolver | destination => rfl

theorem assemble_inlined (h : patch.key? = none) (context : ContextId) (nodes : List Node) :
    patch.inlined.assemble context nodes = patch.assemble context nodes := by
  cases patch with
  | connect route patches => cases route <;> cases nodes <;> rfl
  | gain level => simp only [inlined, assemble, Control.draw_inlined]
  | oscillator waveform frequency detune =>
      simp only [inlined, assemble, Control.draw_inlined, Control.drawIfGiven_inlined]
  | biquadFilter type frequency q detune =>
      simp only [inlined, assemble, Control.draw_inlined, Control.drawIfGiven_inlined]
  | delay time feedback => cases feedback <;> simp only [inlined, assemble, Control.draw_inlined]
  | memoize id body => cases h
  | envelope | constant | noise | convolver | destination => rfl

theorem ids_eq (patch : Patch) : patch.ids = patch.key?.toList ++ patch.parts.flatMap ids := by
  cases patch with
  | connect route patches => exact allIds_eq patches
  | gain level => exact level.ids_eq
  | oscillator waveform frequency detune =>
      simp [ids, parts, key?, Control.ids_eq, Control.idsIfGiven_eq]
  | biquadFilter type frequency q detune =>
      simp [ids, parts, key?, Control.ids_eq, Control.idsIfGiven_eq]
  | delay time feedback => exact time.ids_eq
  | memoize id body => simp [ids, parts, key?]
  | envelope | constant | noise | convolver | destination => rfl

theorem mem_ids_of_within {id : String} {body : Patch} (h : (memoize id body).Within patch) :
    id ∈ patch.ids := by
  generalize hinner : memoize id body = inner at h
  induction h with
  | self =>
      subst hinner
      exact List.mem_cons_self
  | part hpart _ ih =>
      rw [ids_eq]
      exact List.mem_append_right _ (List.mem_flatMap.2 ⟨_, hpart, ih⟩)

-- No id is left.
theorem ids_inlined (patch : Patch) : patch.inlined.ids = [] := by
  induction patch using induct with
  | step patch ih =>
      cases hkey : patch.key? with
      | none =>
          rw [ids_eq, key?_inlined hkey, parts_inlined hkey]
          refine List.flatMap_eq_nil_iff.2 fun part hpart => ?_
          obtain ⟨own, hown, rfl⟩ := List.mem_map.1 hpart
          exact ih own hown
      | some id =>
          obtain ⟨body, rfl⟩ := eq_of_key hkey
          exact ih body (List.mem_singleton.2 rfl)

end Patch

namespace Studio

def builder (s : Studio) (b : BuilderId) : Builder := (s.builders[b]?).getD ⟨0, []⟩

-- How much is memoized.
def keptCount (s : Studio) (b : BuilderId) : Nat := (s.builder b).memo.length

end Studio

-- Ids that are each their own, and still to be kept.
structure Unkept (b : BuilderId) (ids : List String) (s : Studio) : Prop where
  there : b < s.builders.size
  named : "" ∉ ids
  distinct : ids.Nodup
  unknown : ∀ id ∈ ids, s.memoized b id = none

-- The builder comes to keep something under each of the ids, and nothing else changes around the
-- nodes.
structure Fills (b : BuilderId) (ids : List String) (s t : Studio) : Prop where
  there : b < t.builders.size
  context : (t.builder b).context = (s.builder b).context
  found : ∀ id ∈ ids, (t.memoized b id).isSome
  kept : ∀ id ∉ ids, t.memoized b id = s.memoized b id
  grown : t.keptCount b = s.keptCount b + ids.length
  around : t.backdrop = { s.backdrop with builders := t.builders }

section Filling

variable {b : BuilderId} {ids more : List String} {s t u : Studio}

theorem Fills.refl (hb : b < s.builders.size) : Fills b [] s s :=
  ⟨hb, rfl, by simp, fun _ _ => rfl, rfl, rfl⟩

theorem Fills.trans (h : Fills b ids s t) (h' : Fills b more t u) : Fills b (ids ++ more) s u where
  there := h'.there
  context := h'.context.trans h.context
  found id hid := by
    by_cases hmore : id ∈ more
    · exact h'.found id hmore
    · rw [h'.kept id hmore]
      exact h.found id ((List.mem_append.1 hid).resolve_right hmore)
  kept id hid := by
    rw [List.mem_append, not_or] at hid
    exact (h'.kept id hid.2).trans (h.kept id hid.1)
  grown := by rw [h'.grown, h.grown, List.length_append, Nat.add_assoc]
  around := by rw [h'.around, h.around]

-- What is done among hosts and nodes fills nothing.
theorem Fills.overlooked {α : Type} {act : Act α} {a : α} (h : Fills b ids s t)
    (hact : Overlooks act) (hrun : act t = .ok a u) : Fills b ids s u := by
  have hsame := hact.backdrop hrun
  have hbuilders : u.builders = t.builders := congrArg Backdrop.builders hsame
  have hbuilder : u.builder b = t.builder b := by rw [Studio.builder, Studio.builder, hbuilders]
  refine ⟨hbuilders ▸ h.there, hbuilder ▸ h.context, fun id hid => ?found, fun id hid => ?kept,
    ?grown, ?around⟩
  case found =>
      rw [Studio.memoized, hbuilders]
      exact h.found id hid
  case kept =>
      rw [Studio.memoized, hbuilders]
      exact h.kept id hid
  case grown =>
      rw [Studio.keptCount, hbuilder]
      exact h.grown
  case around => rw [hsame, hbuilders, h.around]

-- Under one more id.
theorem Fills.memoize {id : String} (h : Fills b ids s t) (hid : id ∉ ids)
    (hnone : s.memoized b id = none) (node : Node) :
    Fills b (id :: ids) s ((Builder.memoize b id node).after t) := by
  have hmemoized := Studio.memoized_memoize h.there id
  have hbuilder : ((Builder.memoize b id node).after t).builder b =
      { t.builder b with memo := Keyed.insert id node (t.builder b).memo } := by
    simp [Builder.memoize, after_modify, Studio.builder, Array.getElem?_modify,
      Array.getElem?_eq_getElem h.there]
  have hnew : Keyed.get? (t.builder b).memo id = none := (h.kept id hid).trans hnone
  refine ⟨?there, ?context, fun other hother => ?found, fun other hother => ?kept, ?grown, ?around⟩
  case there => simpa [Builder.memoize, after_modify] using h.there
  case context =>
      rw [hbuilder]
      exact h.context
  case found =>
      rw [hmemoized]
      split
      case isTrue => rfl
      case isFalse hne => exact h.found other ((List.mem_cons.1 hother).resolve_left (Ne.symm hne))
  case kept =>
      rw [List.mem_cons, not_or] at hother
      rw [hmemoized, if_neg (Ne.symm hother.1)]
      exact h.kept other hother.2
  case grown =>
      rw [Studio.keptCount, hbuilder, Keyed.length_insert hnew, List.length_cons, ← Nat.add_assoc]
      exact congrArg (· + 1) h.grown
  case around =>
      have hsame : ((Builder.memoize b id node).after t).backdrop =
          { t.backdrop with builders := ((Builder.memoize b id node).after t).builders } := rfl
      rw [hsame, h.around]

theorem Unkept.left (h : Unkept b (ids ++ more) s) : Unkept b ids s where
  there := h.there
  named hid := h.named (List.mem_append_left _ hid)
  distinct := (List.nodup_append.1 h.distinct).1
  unknown id hid := h.unknown id (List.mem_append_left _ hid)

-- The other ids are still to be kept when some are.
theorem Unkept.right (h : Unkept b (ids ++ more) s) (hst : Fills b ids s t) : Unkept b more t where
  there := hst.there
  named hid := h.named (List.mem_append_right _ hid)
  distinct := (List.nodup_append.1 h.distinct).2.1
  unknown id hid := by
    have hother : id ∉ ids := fun hmem => (List.nodup_append.1 h.distinct).2.2 id hmem id hid rfl
    rw [hst.kept id hother]
    exact h.unknown id (List.mem_append_right _ hid)

end Filling

-- Whichever builder of the same context builds it without ids, in whatever surroundings, does the
-- same among hosts and nodes.
def Inlines (b other : BuilderId) (patch : Patch) : Prop :=
  ∀ ⦃s t : Studio⦄ ⦃node : Node⦄ (scene : Backdrop), Unkept b patch.ids s →
    ((s.against scene).builder other).context = (s.builder b).context →
    Builder.build b patch s = .ok node t →
      Builder.build other patch.inlined (s.against scene) = .ok node (t.against scene) ∧
        Fills b patch.ids s t

namespace Builder

variable {b other : BuilderId} {s t : Studio}

theorem run_build {patch : Patch} (h : patch.key? = none) (s : Studio) : build b patch s =
    (buildAll b patch.parts >>= fun nodes => patch.assemble (s.builder b).context nodes) s := by
  rw [build_eq h]
  rfl

-- Under an id that is still to be kept.
theorem run_memoize {id : String} (hnamed : id ≠ "") (hnone : s.memoized b id = none) (body : Patch) :
    build b (.memoize id body) s = (do
      let node ← build b body
      memoize b id node
      return node : Act Node) s := by
  have hstate : state b s = .ok (s.builder b) s := rfl
  have hmemo : Keyed.get? (s.builder b).memo id = none := hnone
  rw [build_memoize, if_neg (by simpa using hnamed), run_bind hstate, hmemo]

theorem inlines_buildAll {patches : List Patch} {nodes : List Node} {scene : Backdrop}
    (hinlines : ∀ patch ∈ patches, Inlines b other patch)
    (hids : Unkept b (patches.flatMap Patch.ids) s)
    (hcontext : ((s.against scene).builder other).context = (s.builder b).context)
    (hbuilt : buildAll b patches s = .ok nodes t) :
    buildAll other (patches.map Patch.inlined) (s.against scene) = .ok nodes (t.against scene) ∧
      Fills b (patches.flatMap Patch.ids) s t := by
  induction patches generalizing s nodes with
  | nil =>
      cases hbuilt
      exact ⟨rfl, .refl hids.there⟩
  | cons patch rest ih =>
      rw [buildAll] at hbuilt
      obtain ⟨node, u, hnode, hbuilt⟩ := ok_of_seq hbuilt
      obtain ⟨others, v, hothers, hbuilt⟩ := ok_of_seq hbuilt
      cases hbuilt
      rw [List.flatMap_cons] at hids ⊢
      obtain ⟨hplain, hfills⟩ :=
        hinlines patch List.mem_cons_self scene hids.left hcontext hnode
      obtain ⟨hplains, hfills'⟩ := ih (fun part hpart => hinlines part (List.mem_cons_of_mem _ hpart))
        (hids.right hfills) (hcontext.trans hfills.context.symm) hothers
      refine ⟨?_, hfills.trans hfills'⟩
      rw [List.map_cons, buildAll, run_bind hplain, run_bind hplains]
      rfl

-- Its parts come first, each with ids that those before it have left to be kept.
theorem inlines (patch : Patch) : Inlines b other patch := by
  induction patch using Patch.induct with
  | step patch ih =>
      intro s t node scene hids hcontext hbuilt
      cases hkey : patch.key? with
      | none =>
          rw [Patch.ids_eq, hkey, Option.toList_none, List.nil_append] at hids ⊢
          rw [run_build hkey] at hbuilt
          obtain ⟨nodes, u, hparts, hnode⟩ := ok_of_seq hbuilt
          obtain ⟨hplain, hfills⟩ := inlines_buildAll ih hids hcontext hparts
          have hover := patch.overlooks_assemble (s.builder b).context nodes
          refine ⟨?_, hfills.overlooked hover hnode⟩
          rw [run_build (Patch.key?_inlined hkey), Patch.parts_inlined hkey, run_bind hplain, hcontext,
            Patch.assemble_inlined hkey, hover.run hnode]
      | some id =>
          obtain ⟨body, rfl⟩ := Patch.eq_of_key hkey
          rw [Patch.ids] at hids ⊢
          -- The id does not stand within its own body, which thus leaves it to be kept.
          obtain ⟨hfirst, hdistinct⟩ := List.nodup_cons.1 hids.distinct
          have hnamed : id ≠ "" := fun hempty => hids.named (by rw [hempty]; exact List.mem_cons_self)
          have hnone : s.memoized b id = none := hids.unknown id List.mem_cons_self
          rw [run_memoize hnamed hnone] at hbuilt
          obtain ⟨built, u, hbody, hkeep⟩ := ok_of_seq hbuilt
          obtain ⟨rfl, rfl⟩ : built = node ∧ (memoize b id built).after u = t :=
            EStateM.Result.ok.inj hkeep
          have hrest : Unkept b body.ids s := ⟨hids.there, fun hid => hids.named (.tail _ hid),
            hdistinct, fun other hother => hids.unknown other (.tail _ hother)⟩
          obtain ⟨hplain, hfills⟩ := ih body (List.mem_singleton.2 rfl) scene hrest hcontext hbody
          exact ⟨hplain, hfills.memoize hfirst hnone built⟩

end Builder

namespace Studio

-- Ids that are all different, and that the builder does not keep yet, only name what they stand for:
-- without them the patch, whichever builder of the context builds it, has hosts do the same and comes
-- to the same node. Afterwards the builder keeps as much more as there are ids.
theorem builds_like_inlined (rate : Float) (deeds : List Deed) (b other : BuilderId) (patch : Patch)
    (hb : b < ((new rate).done deeds).builders.size)
    (hcontext : (((new rate).done deeds).builder other).context =
      (((new rate).done deeds).builder b).context)
    (hnamed : "" ∉ patch.ids) (hdistinct : patch.ids.Nodup)
    (hunknown : ∀ id ∈ patch.ids, ((new rate).done deeds).memoized b id = none) :
    let s := (new rate).done deeds
    patch.inlined.ids = [] ∧ ∃ node t, Builder.build b patch s = .ok node t ∧
      Builder.build other patch.inlined s = .ok node { t with builders := s.builders } ∧
      t.keptCount b = s.keptCount b + patch.ids.length ∧
      (∀ id ∈ patch.ids, (t.memoized b id).isSome) ∧
      ∀ id ∉ patch.ids, t.memoized b id = s.memoized b id := by
  intro s
  refine ⟨patch.ids_inlined, ?_⟩
  have hat := Array.getElem?_eq_getElem hb
  have hopened := ((sound_done rate deeds).builder b _ hat).opened
  have hsure := Builder.furnishes_build patch ((Supplied.done rate deeds).furnished hat hopened)
  cases hbuilt : Builder.build b patch s with
  | error e t =>
      obtain ⟨-, -, body, hbody⟩ := ends_of_error hbuilt hsure
      exact absurd (Patch.mem_ids_of_within hbody) hnamed
  | ok node t =>
      obtain ⟨hplain, hfills⟩ := Builder.inlines patch s.backdrop
        ⟨hb, hnamed, hdistinct, hunknown⟩ hcontext hbuilt
      have hscene : s.backdrop = { t.backdrop with builders := s.builders } := by
        rw [hfills.around]
        rfl
      refine ⟨node, t, rfl, ?_, hfills.grown, hfills.found, hfills.kept⟩
      change Builder.build other patch.inlined s = .ok node (t.against s.backdrop) at hplain
      rw [hplain, hscene]
      rfl

-- An id for a whole, and two within its body: for a part, and for what drives a parameter.
def labelled : Patch := .memoize "tone" (.connect .serial [
  .oscillator .sine (.node (.memoize "pitch" (.constant 440))) none,
  .memoize "level" (.gain (.value 0.5))])

theorem labelled_builds_like_inlined : 0 < opened.builders.size ∧ "" ∉ labelled.ids ∧
    labelled.ids.Nodup ∧ (∀ id ∈ labelled.ids, opened.memoized 0 id = none) ∧
    ∃ node t, Builder.build 0 labelled opened = .ok node t ∧
      Builder.build 0 labelled.inlined opened = .ok node { t with builders := opened.builders } ∧
      t.keptCount 0 = 3 := by
  have hb : 0 < opened.builders.size := by decide +kernel
  have hnamed : "" ∉ labelled.ids := by decide +kernel
  have hdistinct : labelled.ids.Nodup := by decide +kernel
  have hunknown : ∀ id ∈ labelled.ids, opened.memoized 0 id = none := by
    have hnone : ∀ id ∈ labelled.ids, (opened.memoized 0 id).isNone := by decide +kernel
    exact fun id hid => Option.isNone_iff_eq_none.1 (hnone id hid)
  obtain ⟨-, node, t, hbuilt, hplain, hgrown, -⟩ := builds_like_inlined 44100
    [.give (.openBuilder 0)] 0 0 labelled hb rfl hnamed hdistinct hunknown
  have hempty : opened.keptCount 0 = 0 := by decide +kernel
  have hthree : labelled.ids.length = 3 := by decide +kernel
  refine ⟨hb, hnamed, hdistinct, hunknown, node, t, hbuilt, hplain, ?_⟩
  rw [hthree] at hgrown
  exact hgrown.trans (congrArg (· + 3) hempty)

end Studio

end Patchbay
