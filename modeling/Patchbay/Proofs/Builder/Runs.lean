import Patchbay.Proofs.Host.Ownership

namespace Patchbay

open Act

-- Whatever host nodes there were are of the same kind.
structure Lasting (s t : Studio) : Prop where
  contexts : t.engines.size = s.engines.size
  kinds : ∀ c h kind, s.kind? c h = some kind → t.kind? c h = some kind

instance : IsPreorder Studio Lasting where
  refl _ := ⟨rfl, fun _ _ _ h => h⟩
  trans _ _ _ h h' := ⟨h'.contexts.trans h.contexts,
    fun c host kind hkind => h'.kinds c host kind (h.kinds c host kind hkind)⟩

structure Shelved (s t : Studio) : Prop extends Lasting s t where
  builders : t.builders = s.builders

namespace Shelved

variable {s t : Studio}

instance : IsPreorder Studio Shelved where
  refl s := ⟨refl_of Lasting s, rfl⟩
  trans _ _ _ h h' := ⟨trans_of Lasting h.toLasting h'.toLasting, h'.builders.trans h.builders⟩

theorem of_eq (hbuilders : t.builders = s.builders) (hengines : t.engines = s.engines) :
    Shelved s t where
  builders := hbuilders
  contexts := by rw [hengines]
  kinds c h kind hkind := by rwa [Studio.kind?, Studio.engine, hengines]

theorem of_kept (h : Kept s t) (hbuilders : t.builders = s.builders) : Shelved s t :=
  ⟨⟨h.contexts, h.kinds⟩, hbuilders⟩

theorem of_untouched (h : Untouched s t) : Shelved s t := of_kept (.of_unmoved h.toUnmoved) h.builders

theorem keeps_modify_eq {f : Studio → Studio} (hbuilders : ∀ s, (f s).builders = s.builders)
    (hengines : ∀ s, (f s).engines = s.engines) : Keeps Shelved (modify f) :=
  keeps_modify fun s => of_eq (hbuilders s) (hengines s)

theorem keeps_enrol (context : ContextId) (label : String) (duration release : Option Float)
    (make : NodeInfo → Node) :
    Keeps Shelved (Node.enrol context label duration release make) := by
  refine fun s => Ends.mono (Node.ends_enrolled s) (fun _ t ht => ⟨?_, trivial⟩) fun _ _ h => h.elim
  obtain ⟨-, state, -, huntouched⟩ := ht
  have hpush : Shelved s { s with nodes := s.nodes.push state } := of_eq rfl rfl
  exact trans_of Shelved hpush (of_untouched huntouched)

instance : Wires Shelved where
  request _ _ _ := along_host fun _ h => ⟨of_kept (.of_request h) rfl, trivial⟩
  started _ := keeps_modify_eq (fun _ => rfl) fun _ => rfl
  connected _ _ := keeps_modify_eq (fun _ => rfl) fun _ => rfl

instance : Creates Shelved where
  created context kind _ := along_read (along_bind (along_modify (of_kept (.of_create context kind) rfl))
    fun _ _ _ _ => along_pure trivial)
  enrolled context label duration release make _ := keeps_enrol context label duration release make
  watched context host watcher _ :=
    along_read (along_modify (of_kept (.of_watch context host watcher) rfl))
  warned _ := keeps_modify_eq (fun _ => rfl) fun _ => rfl

theorem keeps_cutHost (context : ContextId) (host : HostId) :
    Keeps Shelved (Act.host context (·.disconnect host)) :=
  fun _ => along_host fun _ h => ⟨of_kept (.of_cut h) rfl, trivial⟩

theorem keeps_disconnect (node : Node) : Keeps Shelved node.disconnect :=
  node.keeps_disconnect (fun _ _ => keeps_modify_eq (fun _ => rfl) fun _ => rfl)
    keeps_cutHost fun _ => keeps_modify_eq (fun _ => rfl) fun _ => rfl

theorem keeps_clearCalls (context : ContextId) : Keeps Shelved (Act.clearCalls context) :=
  fun _ => along_read (along_modify (of_kept (.of_engine context fun _ _ h => h) rfl))

theorem keeps_reading {α : Type} (read : EStateM Error (List Warning) α) :
    Keeps Shelved (reading read) := by
  intro s
  unfold Along Ends reading
  cases read s.warnings with
  | ok a warnings => exact ⟨of_eq rfl rfl, trivial⟩
  | error e warnings => exact of_eq rfl rfl

end Shelved

-- A builder builds a patch, or a command is given to the studio.
inductive Deed where
  | build (builder : BuilderId) (patch : Patch)
  | give (command : Command)

-- Only a builder that is there builds.
def Deed.after (s : Studio) : Deed → Studio
  | .build builder patch =>
    if builder < s.builders.size then (Builder.build builder patch).after s else s
  | .give command => (command.act? s).elim s (·.after s)

def Studio.done (s : Studio) (deeds : List Deed) : Studio := deeds.foldl Deed.after s

theorem Deed.sound_after {s : Studio} (deed : Deed) (hs : s.ledger.Sound 0) :
    (deed.after s).ledger.Sound 0 := by
  cases deed with
  | build builder patch =>
      rw [after]
      split
      case isFalse => exact hs
      case isTrue hb =>
          refine after_of_ends (P := fun t => t.ledger.Sound 0) ?_
          exact Ends.mono (Builder.offering_build patch (Studio.stocks hs hb))
            (fun _ _ ht => Made.sound ht.1 hs) fun _ _ ht => Made.sound ht hs
  | give command =>
      have hmoved := (@Session.moves_perform ⟨s, ⟨[], []⟩⟩ hs command).sound hs
      rw [Session.moment, Session.perform] at hmoved
      rw [after]
      cases hact : command.act? s with
      | none => exact hs
      | some act => simpa [hact] using hmoved

namespace Studio

-- What a new studio has and every deed leaves in place.
theorem invariant_done {P : Studio → Prop} (rate : Float) (deeds : List Deed) (hnew : P (.new rate))
    (hstep : ∀ s : Studio, s.ledger.Sound 0 → P s → ∀ deed : Deed, P (deed.after s)) :
    P ((new rate).done deeds) ∧ ((new rate).done deeds).ledger.Sound 0 := by
  induction deeds using List.reverseRecOn with
  | nil => exact ⟨hnew, (Session.lawful_new rate).sound⟩
  | append_singleton deeds deed ih =>
      rw [done, List.foldl_concat]
      exact ⟨hstep _ ih.2 ih.1 deed, deed.sound_after ih.2⟩

theorem sound_done (rate : Float) (deeds : List Deed) : ((new rate).done deeds).ledger.Sound 0 :=
  (invariant_done (P := fun _ => True) rate deeds trivial fun _ _ _ _ => trivial).2

end Studio

end Patchbay
