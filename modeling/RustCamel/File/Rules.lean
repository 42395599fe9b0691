-- The rules for pieces of the file component's code: what a chain of them does to the world and
-- what holds of its result, from what its parts do.
import RustCamel.File.Producer

namespace camel_file

open FileTree UnixPath Prog

/-- What a piece of code may do to the world, whatever comes of it. -/
structure Frame where
  rel : World → World → Prop
  refl : ∀ w, rel w w
  trans : ∀ {w w' w''}, rel w w' → rel w' w'' → rel w w''

def anything : Frame := ⟨fun _ _ => True, fun _ => trivial, fun _ _ => trivial⟩

/-- In every run the code keeps to the frame, and what is said of its result holds when it comes
through. -/
def Holds (refusable : Call → Prop) (frame : Frame) {ε α : Type} (w : World)
    (code : Prog Call Answer (Except ε α)) (Q : α → World → Prop) : Prop :=
  wp (ofSem (os refusable)) code (fun r w' => frame.rel w w' ∧ ∀ a, r = .ok a → Q a w') w

variable {refusable : Call → Prop} {frame : Frame} {ε α β : Type} {w : World}

theorem Holds.bind {code : FileProg α} {f : α → FileProg β} {Q : α → World → Prop}
    {Q' : β → World → Prop} (h : Holds refusable frame w code.run Q)
    (hf : ∀ a w', frame.rel w w' → Q a w' → Holds refusable frame w' (f a).run Q') :
    Holds refusable frame w (code >>= f).run Q' := by
  unfold Holds at h ⊢
  rw [wp_run_bind]
  refine wp_mono (mono_ofSem _) ?_ h
  rintro (err | a) w' ⟨hfr, hr⟩
  · exact ⟨hfr, fun _ ha => by cases ha⟩
  · refine wp_mono (mono_ofSem _) ?_ (hf a w' hfr (hr a rfl))
    rintro r w'' ⟨hfr', hr'⟩
    exact ⟨frame.trans hfr hfr', hr'⟩

theorem Holds.pure {a : α} {Q : α → World → Prop} (h : Q a w) :
    Holds refusable frame w (pure a : FileProg α).run Q :=
  ⟨frame.refl w, fun b hb => by cases hb; exact h⟩

theorem Holds.checked {result : Except CamelError α} :
    Holds refusable frame w (checked result).run fun a w' => result = .ok a ∧ w' = w :=
  ⟨frame.refl w, fun _ ha => ⟨ha, rfl⟩⟩

theorem Holds.throw {err : CamelError} {Q : α → World → Prop} :
    Holds refusable frame w (throw err : FileProg α).run Q :=
  ⟨frame.refl w, fun _ ha => by cases ha⟩

theorem Holds.mono {code : Prog Call Answer (Except ε α)} {Q Q' : α → World → Prop}
    (h : Holds refusable frame w code Q) (hQ : ∀ a w', Q a w' → Q' a w') :
    Holds refusable frame w code Q' := by
  refine wp_mono (mono_ofSem _) ?_ h
  rintro r w' ⟨hf, hr⟩
  exact ⟨hf, fun a ha => hQ a w' (hr a ha)⟩

theorem Holds.query {c : Call} (hc : ∀ w r w', os refusable c w r w' → w' = w) :
    Holds refusable frame w (ExceptT.lift (sys c) : FileProg (Answer c)).run fun _ w' => w' = w := by
  intro r w' h
  obtain rfl := hc w r w' h
  exact ⟨frame.refl w', fun _ _ => rfl⟩

theorem Holds.look : Holds refusable frame w look.run fun fs w' => fs = w.fs ∧ w' = w := by
  rintro fs w' (⟨rfl, rfl⟩ | ⟨-, h⟩)
  · exact ⟨frame.refl w', fun a ha => by cases ha; exact ⟨rfl, rfl⟩⟩
  · cases h

theorem Holds.timeout {text : String} {op : Prog Call Answer (Except Fault α)}
    {Q : α → World → Prop} (h : Holds refusable frame w op Q) :
    Holds refusable frame w (timeout text op).run Q := by
  unfold Holds at h ⊢
  unfold camel_file.timeout
  rw [wp_run_bind, wp_run_lift]
  refine wp_mono (mono_ofSem _) ?_ h
  rintro r w' ⟨hf, hr⟩ elapsed w'' he
  obtain rfl : w'' = w' := by
    rcases he with rfl | ⟨-, h⟩
    · rfl
    · cases h
  cases elapsed with
  | true => exact ⟨hf, fun a ha => by cases ha⟩
  | false =>
    refine ⟨hf, ?_⟩
    intro a ha
    cases r with
    | error fault => cases ha
    | ok b =>
      cases ha
      exact hr a rfl

theorem Holds.plain {op : Prog Call Answer (Except Fault α)} {Q : α → World → Prop}
    (h : Holds refusable frame w op Q) : Holds refusable frame w (plain op).run Q := by
  unfold Holds at h ⊢
  unfold camel_file.plain
  rw [wp_run_bind, wp_run_lift]
  refine wp_mono (mono_ofSem _) ?_ h
  rintro r w' ⟨hf, hr⟩
  refine ⟨hf, ?_⟩
  intro a ha
  cases r with
  | error fault => cases ha
  | ok b =>
    cases ha
    exact hr a rfl

theorem Holds.ignored {op : Prog Call Answer (Except Fault α)} {Q : α → World → Prop}
    (h : Holds refusable frame w op Q) :
    Holds refusable frame w (ignored op).run fun _ _ => True := by
  unfold Holds at h ⊢
  unfold camel_file.ignored
  rw [wp_run_bind, wp_run_lift]
  refine wp_mono (mono_ofSem _) ?_ h
  rintro r w' ⟨hf, -⟩
  exact ⟨hf, fun _ _ => trivial⟩

theorem Holds.guarded {temp_path : Path} {code : FileProg α} {Q : α → World → Prop}
    (h : Holds refusable frame w code.run Q)
    (hre : ∀ w', frame.rel w w' →
      Holds refusable frame w' (sys (.remove_file temp_path)) fun _ _ => True) :
    Holds refusable frame w (guarded temp_path code).run Q := by
  unfold Holds at h ⊢
  unfold camel_file.guarded
  show wp _ (code.run >>= _) _ w
  rw [wp_bind]
  refine wp_mono (mono_ofSem _) ?_ h
  rintro (err | a) w' ⟨hf, hr⟩
  · intro answer w'' han
    obtain ⟨hf', -⟩ := hre w' hf answer w'' han
    exact ⟨frame.trans hf hf', fun _ ha => by cases ha⟩
  · exact ⟨hf, hr⟩

theorem Holds.anything {code : Prog Call Answer (Except ε α)} :
    Holds refusable anything w code fun _ _ => True := by
  apply wp_ofSem_iff.mpr
  intro r w' _
  exact ⟨trivial, fun _ _ => trivial⟩

theorem Holds.validated {dir_path target_path : Path} :
    Holds refusable frame w (validated dir_path target_path).run fun _ w' =>
      validate_path_is_within_base w.fs dir_path target_path = .ok () ∧ w' = w := by
  unfold camel_file.validated
  refine Holds.bind Holds.look ?_
  rintro fs w' - ⟨rfl, rfl⟩
  exact Holds.checked

end camel_file
