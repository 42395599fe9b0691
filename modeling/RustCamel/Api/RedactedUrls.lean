-- What the redaction of a URL hides. Where no window opens inside another with an `@` behind it,
-- the offsets hold, and the output depends neither on the userinfo of a window nor on the text
-- after the first `?` or `#`.
import Mathlib.Algebra.Order.Ring.Nat
import Mathlib.Data.List.TakeWhile
import RustCamel.Api.Redact

open List Option

variable {a : List Char}

namespace camel_api.redact

/-! ## Cutting and splitting -/

@[simp] theorem byte_len_nil : byte_len [] = 0 := rfl

@[simp] theorem byte_len_cons (c : Char) (s : List Char) :
    byte_len (c :: s) = c.utf8Size + byte_len s := by
  simp [byte_len]

@[simp] theorem byte_len_append (a b : List Char) :
    byte_len (a ++ b) = byte_len a + byte_len b := by
  simp [byte_len]

theorem cut_append (a b : List Char) : cut (byte_len a) (a ++ b) = some (a, b) := by
  induction a with
  | nil => simp [cut]
  | cons c a ih =>
    have hp := c.utf8Size_pos
    obtain ⟨n, hn⟩ : ∃ n, byte_len (c :: a) = n + 1 :=
      ⟨byte_len (c :: a) - 1, by rw [byte_len_cons]; omega⟩
    have hr : n + 1 - c.utf8Size = byte_len a := by
      rw [byte_len_cons] at hn
      omega
    rw [hn, cons_append, cut, if_neg (by rw [byte_len_cons] at hn; omega), hr, ih]
    rfl

theorem append_inj_of_byte_len {b a' b' : List Char} (h : a ++ b = a' ++ b')
    (hlen : byte_len a = byte_len a') : a = a' ∧ b = b' := by
  have hc := cut_append a b
  rw [h, hlen, cut_append] at hc
  simp only [Option.some.injEq, Prod.mk.injEq] at hc
  exact ⟨hc.1.symm, hc.2.symm⟩

variable {sep c : Char} {raw : List Char}

theorem split_last_eq_none_iff {s : List Char} : split_last sep s = none ↔ sep ∉ s := by
  induction s with
  | nil => simp [split_last]
  | cons c s ih =>
    rw [split_last, mem_cons, not_or]
    cases hs : split_last sep s with
    | some p =>
      have : sep ∈ s := by
        by_contra hnot
        rw [ih.mpr hnot] at hs
        cases hs
      simp [this]
    | none =>
      by_cases hc : c = sep
      · simp [hc]
      · simp [hc, Ne.symm hc, ih.mp hs]

theorem split_last_append (a : List Char) {b : List Char} (h : sep ∉ b) :
    split_last sep (a ++ sep :: b) = some (a, sep :: b) := by
  induction a with
  | nil => simp [split_last, split_last_eq_none_iff.mpr h]
  | cons c a ih => rw [cons_append, split_last, ih]

theorem split_last_eq_some {s b : List Char} (h : split_last sep s = some (a, b)) :
    ∃ after, b = sep :: after ∧ s = a ++ sep :: after ∧ sep ∉ after := by
  induction s generalizing a with
  | nil => cases h
  | cons c s ih =>
    rw [split_last] at h
    split at h
    · rename_i before after hs
      simp only [Option.some.injEq, Prod.mk.injEq] at h
      obtain ⟨rfl, rfl⟩ := h
      obtain ⟨tail, rfl, rfl, hnot⟩ := ih hs
      exact ⟨tail, rfl, rfl, hnot⟩
    · rename_i hs
      split at h
      · rename_i hc
        simp only [Option.some.injEq, Prod.mk.injEq] at h
        obtain ⟨rfl, rfl⟩ := h
        exact ⟨s, by rw [hc], by rw [hc, nil_append], split_last_eq_none_iff.mp hs⟩
      · cases h

/-! ## The text of a window -/

theorem window_text_append (b : List Char) (h : ∀ c ∈ a, ends_window c = false) :
    window_text (a ++ b) = a ++ window_text b := by
  unfold window_text
  rw [takeWhile_append_of_pos]
  intro c hc
  rw [h c hc]
  rfl

theorem window_text_stop (b b' : List Char) (h : ∃ c ∈ a, ends_window c = true) :
    window_text (a ++ b) = window_text (a ++ b') := by
  induction a with
  | nil =>
    obtain ⟨c, hc, -⟩ := h
    cases hc
  | cons c a ih =>
    unfold window_text at ih ⊢
    rw [cons_append, cons_append, takeWhile_cons, takeWhile_cons]
    by_cases hc : ends_window c = true
    · simp [hc]
    · obtain ⟨d, hd, he⟩ := h
      rcases mem_cons.mp hd with rfl | hd
      · exact absurd he hc
      · rw [ih ⟨d, hd, he⟩]

theorem not_ends_of_mem_window {rest : List Char} (h : c ∈ window_text rest) :
    ends_window c = false := by
  have := mem_takeWhile_imp h
  simpa using this

theorem window_text_begins (rest : List Char) : ∃ after, rest = window_text rest ++ after :=
  ⟨_, (takeWhile_append_dropWhile).symm⟩

/-! ## Masking from left to right -/

def mask_from (before rest : List Char) : List Char :=
  match _h : (if opens before rest then split_last '@' (window_text rest) else none) with
  | some (user, _) =>
    "***".toList ++ '@' :: mask_from ('@' :: (user.reverse ++ before)) (rest.drop (user.length + 1))
  | none =>
    match rest with
    | [] => []
    | c :: rest => c :: mask_from (c :: before) rest
termination_by rest.length
decreasing_by
  · have hne : rest ≠ [] := by
      rintro rfl
      simp [window_text, split_last] at _h
    have hpos := length_pos_iff.mpr hne
    rw [length_drop]
    omega
  · simp

theorem mask_from_quiet {before : List Char} {rest : List Char}
    (h : opens before (c :: rest) = true → '@' ∉ window_text (c :: rest)) :
    mask_from before (c :: rest) = c :: mask_from (c :: before) rest := by
  have hn : (if opens before (c :: rest) then split_last '@' (window_text (c :: rest))
      else none) = none := by
    split
    · rename_i ho
      exact split_last_eq_none_iff.mpr (h ho)
    · rfl
  rw [mask_from]
  split
  · rename_i heq
    rw [hn] at heq
    cases heq
  · rfl

variable (before : List Char) {w : Nat × Nat}

theorem mask_from_nil : mask_from before [] = [] := by
  have hn : (if opens before [] then split_last '@' (window_text []) else none) = none := by
    split <;> rfl
  rw [mask_from]
  split
  · rename_i heq
    rw [hn] at heq
    cases heq
  · rfl

theorem mask_from_window {before user after : List Char} {rest : List Char}
    (ho : opens before rest = true) (ht : window_text rest = user ++ '@' :: after)
    (hlast : '@' ∉ after) :
    mask_from before rest = "***".toList ++
      '@' :: mask_from ('@' :: (user.reverse ++ before)) (rest.drop (user.length + 1)) := by
  have hs : (if opens before rest then split_last '@' (window_text rest) else none) =
      some (user, '@' :: after) := by
    rw [if_pos ho, ht, split_last_append _ hlast]
  rw [mask_from]
  split
  · rename_i heq
    rw [hs] at heq
    cases heq
    rfl
  · rename_i heq
    rw [hs] at heq
    cases heq

/-- A window without `@` stays as it is. -/
theorem mask_from_keeps_window {rest : List Char} (h : '@' ∉ window_text rest) :
    ∃ after, mask_from before rest = window_text rest ++ after := by
  induction rest generalizing before with
  | nil => exact ⟨[], mask_from_nil before⟩
  | cons c rest ih =>
    rw [mask_from_quiet fun _ => h]
    unfold window_text at h ih ⊢
    rw [takeWhile_cons] at h ⊢
    split
    · rename_i hc
      rw [if_pos hc, mem_cons, not_or] at h
      obtain ⟨after, ha⟩ := ih (c :: before) h.2
      exact ⟨after, by rw [ha, cons_append]⟩
    · exact ⟨_, rfl⟩

/-! ## Windows apart -/

/-- No window that opens in the rest of the input opens inside another one with an `@` behind
it. -/
def ApartFrom (rest : List Char) : Prop :=
  ∀ x y z, rest = x ++ (y ++ z) → y ≠ [] → opens (x.reverse ++ before) (y ++ z) = true →
    opens (y.reverse ++ (x.reverse ++ before)) z = true → (∀ c ∈ y, ends_window c = false) →
    '@' ∉ window_text z

theorem ApartFrom.drop {before skipped rest : List Char} (h : ApartFrom before (skipped ++ rest)) :
    ApartFrom (skipped.reverse ++ before) rest := by
  rintro x y z rfl hn ho hi he
  have hx : x.reverse ++ (skipped.reverse ++ before) = (skipped ++ x).reverse ++ before := by
    simp
  rw [hx] at ho hi
  exact h (skipped ++ x) y z (by simp) hn ho hi he

theorem windows_from_cons (i : Nat) (c : Char) (rest : List Char) :
    windows_from before i (c :: rest) =
      (if opens before (c :: rest) then [(i, i + byte_len (window_text (c :: rest)))] else []) ++
        windows_from (c :: before) (i + c.utf8Size) rest := rfl

theorem windows_from_skip (i : Nat) (skipped rest : List Char)
    (h : ∀ x y, skipped = x ++ y → y ≠ [] → opens (x.reverse ++ before) (y ++ rest) = false) :
    windows_from before i (skipped ++ rest) =
      windows_from (skipped.reverse ++ before) (i + byte_len skipped) rest := by
  induction skipped generalizing before i with
  | nil => simp
  | cons c skipped ih =>
    have hh : opens before (c :: (skipped ++ rest)) = false := h [] (c :: skipped) rfl (by simp)
    rw [cons_append, windows_from_cons, hh]
    simp only [Bool.false_eq_true, if_false, nil_append]
    rw [ih]
    · simp [Nat.add_assoc]
    · rintro x y rfl hn
      have := h (c :: x) y rfl hn
      simpa using this

def mask_all (windows : List (Nat × Nat)) (out : Option (List Char)) : Option (List Char) :=
  windows.foldr (fun window out => out.bind (mask_window window)) out

theorem mask_window_quiet {done text after : List Char} (h : '@' ∉ text) :
    mask_window (byte_len done, byte_len done + byte_len text) (done ++ (text ++ after)) =
      some (done ++ (text ++ after)) := by
  simp only [mask_window, cut_append, bind_eq_bind, bind_some,
    Nat.add_sub_cancel_left, split_last_eq_none_iff.mpr h]

theorem mask_window_user {done user host after : List Char} (h : '@' ∉ host) :
    mask_window (byte_len done, byte_len done + byte_len (user ++ '@' :: host))
        (done ++ ((user ++ '@' :: host) ++ after)) =
      some (done ++ ("***".toList ++ '@' :: (host ++ after))) := by
  simp only [mask_window, cut_append, bind_eq_bind, bind_some,
    Nat.add_sub_cancel_left, split_last_append _ h]
  simp

/-- A window with an `@`: what is masked, and what comes behind it. -/
theorem split_window {rest : List Char} (h : '@' ∈ window_text rest) :
    ∃ user host after, window_text rest = user ++ '@' :: host ∧ '@' ∉ host ∧
      rest = user ++ '@' :: (host ++ after) ∧ window_text (host ++ after) = host ∧
      ∀ c ∈ user, ends_window c = false := by
  cases hs : split_last '@' (window_text rest) with
  | none => exact absurd h (split_last_eq_none_iff.mp hs)
  | some p =>
    obtain ⟨user, kept⟩ := p
    obtain ⟨host, -, ht, hh⟩ := split_last_eq_some hs
    obtain ⟨after, ha⟩ := window_text_begins rest
    have hr : rest = user ++ '@' :: (host ++ after) := by
      rw [ht] at ha
      rw [ha]
      simp
    have he : ∀ c ∈ user ++ ['@'], ends_window c = false := by
      intro c hc
      apply not_ends_of_mem_window
      rw [ht]
      simp only [mem_append, mem_cons, not_mem_nil, or_false] at hc ⊢
      tauto
    have hw : window_text rest = user ++ '@' :: window_text (host ++ after) := by
      have := window_text_append (host ++ after) he
      rw [hr]
      simpa using this
    refine ⟨user, host, after, ht, hh, hr, ?_, fun c hc => he c (by simp [hc])⟩
    rw [ht] at hw
    simpa using hw.symm

/-- No window opens behind the start of a window and before its last `@`. -/
theorem no_window_in_user {before user : List Char} {rest skipped : List Char}
    (ha : ApartFrom before (c :: (skipped ++ rest)))
    (ho : opens before (c :: (skipped ++ rest)) = true) (hu : c :: skipped = user ++ ['@'])
    (he : ∀ d ∈ user, ends_window d = false) :
    ∀ x y, skipped = x ++ y → y ≠ [] → opens (x.reverse ++ (c :: before)) (y ++ rest) = false := by
  rintro x y rfl hn
  rw [← Bool.not_eq_true]
  intro hi
  have hm : ∀ d ∈ c :: (x ++ y), ends_window d = false := by
    intro d hd
    rw [hu] at hd
    rcases mem_append.mp hd with hd | hd
    · exact he d hd
    · rw [mem_singleton.mp hd]
      rfl
  have hat : '@' ∈ y := by
    have hlast : (c :: (x ++ y)).getLast? = some '@' := by
      rw [hu]
      simp
    rw [← cons_append, getLast?_append_of_ne_nil _ hn] at hlast
    exact mem_of_getLast? hlast
  have hq := ha [] (c :: x) (y ++ rest) (by simp) (by simp) (by simpa using ho)
    (by simpa using hi) (fun d hd => hm d (by
      rw [← cons_append]
      exact mem_append_left _ hd))
  apply hq
  rw [window_text_append _ (fun d hd => hm d (by
    rw [← cons_append]
    exact mem_append_right _ hd))]
  exact mem_append_left _ hat

theorem mask_all_windows_from (done rest : List Char) (hap : ApartFrom before rest) :
    mask_all (windows_from before (byte_len done) rest) (some (done ++ rest)) =
      some (done ++ mask_from before rest) := by
  induction hn : rest.length using Nat.strongRecOn generalizing before done rest with
  | ind n ih =>
  cases rest with
  | nil =>
    rw [mask_from_nil, windows_from]
    split
    · have hq : mask_window (byte_len done, byte_len done + byte_len [])
          (done ++ ([] ++ [])) = some (done ++ ([] ++ [])) := mask_window_quiet (by simp)
      exact hq
    · rfl
  | cons c rest =>
    have hne : mask_all (windows_from (c :: before) (byte_len done + c.utf8Size) rest)
        (some (done ++ c :: rest)) = some (done ++ c :: mask_from (c :: before) rest) := by
      have hd : ApartFrom ([c].reverse ++ before) rest := ApartFrom.drop hap
      have := ih rest.length (by rw [← hn]; simp) (c :: before) (done ++ [c]) rest hd rfl
      simpa using this
    rw [windows_from_cons]
    by_cases ho : opens before (c :: rest) = true
    · rw [if_pos ho]
      by_cases hat : '@' ∈ window_text (c :: rest)
      · obtain ⟨user, host, after, ht, hh, hr, hw, he⟩ := split_window hat
        obtain ⟨skipped, hs⟩ : ∃ skipped, c :: skipped = user ++ ['@'] := by
          cases user with
          | nil =>
            obtain ⟨rfl, -⟩ := List.cons.inj hr
            exact ⟨[], rfl⟩
          | cons d user =>
            obtain ⟨rfl, -⟩ := List.cons.inj hr
            exact ⟨user ++ ['@'], rfl⟩
        have hsp : rest = skipped ++ (host ++ after) := by
          have : c :: rest = c :: skipped ++ (host ++ after) := by
            rw [hr, hs]
            simp
          simpa using this
        subst hsp
        rw [windows_from_skip _ _ _ _ (no_window_in_user hap ho hs he)]
        have hb : skipped.reverse ++ c :: before = '@' :: (user.reverse ++ before) := by
          have := congrArg List.reverse hs
          rw [reverse_cons, reverse_append] at this
          have := congrArg (· ++ before) this
          simpa using this
        have hof : byte_len done + c.utf8Size + byte_len skipped =
            byte_len (done ++ (user ++ ['@'])) := by
          rw [← hs]
          simp [Nat.add_assoc]
        have hl := ih (host ++ after).length
          (by rw [← hn]; simp only [length_append, length_cons]; omega)
          ('@' :: (user.reverse ++ before)) (done ++ (user ++ ['@'])) (host ++ after)
          (by
            have hd : ApartFrom ((c :: skipped).reverse ++ before) (host ++ after) :=
              ApartFrom.drop hap
            rwa [reverse_cons, append_assoc, singleton_append, hb] at hd) rfl
        have hi : done ++ c :: (skipped ++ (host ++ after)) =
            done ++ (user ++ ['@']) ++ (host ++ after) := by
          rw [← hs]
          simp
        have hd :
    (c :: (skipped ++ (host ++ after))).drop (user.length + 1) = host ++ after := by
          rw [hr]
          simp
        have hk : '@' ∉ window_text (host ++ after) := by rwa [hw]
        obtain ⟨later, hl'⟩ := mask_from_keeps_window ('@' :: (user.reverse ++ before)) hk
        rw [hw] at hl'
        rw [singleton_append]
        change (mask_all _ _).bind _ = _
        rw [hb, hof, hi, hl, bind_some, ht, mask_from_window ho ht hh, hd, hl']
        have hm : mask_window (byte_len done, byte_len done + byte_len (user ++ '@' :: host))
            (done ++ ((user ++ '@' :: host) ++ later)) =
          some (done ++ ("***".toList ++ '@' :: (host ++ later))) := mask_window_user hh
        simpa using hm
      · rw [mask_from_quiet fun _ => hat]
        obtain ⟨after, ha⟩ := mask_from_keeps_window before hat
        rw [mask_from_quiet fun _ => hat] at ha
        rw [singleton_append]
        change (mask_all _ _).bind _ = _
        rw [hne, bind_some, ha]
        exact mask_window_quiet hat
    · rw [if_neg ho, nil_append, hne, mask_from_quiet fun h => absurd h ho]

theorem mem_windows_from {before : List Char} {i : Nat} {rest : List Char} :
    w ∈ windows_from before i rest ↔
      ∃ x z, rest = x ++ z ∧ opens (x.reverse ++ before) z = true ∧
        w = (i + byte_len x, i + byte_len x + byte_len (window_text z)) := by
  induction rest generalizing before i with
  | nil =>
    rw [windows_from]
    constructor
    · intro hw
      split at hw
      · rename_i ho
        exact ⟨[], [], rfl, ho, mem_singleton.mp hw⟩
      · cases hw
    · rintro ⟨x, z, hr, ho, rfl⟩
      obtain ⟨rfl, rfl⟩ := nil_eq_append_iff.mp hr
      rw [reverse_nil, nil_append] at ho
      rw [if_pos ho]
      exact mem_singleton.mpr rfl
  | cons c rest ih =>
    rw [windows_from_cons, mem_append, ih]
    constructor
    · rintro (hw | ⟨x, z, rfl, ho, rfl⟩)
      · split at hw
        · rename_i ho
          exact ⟨[], c :: rest, rfl, ho, mem_singleton.mp hw⟩
        · cases hw
      · refine ⟨c :: x, z, rfl, by simpa using ho, ?_⟩
        rw [byte_len_cons, Nat.add_assoc i]
    · rintro ⟨x, z, hr, ho, rfl⟩
      rcases cons_eq_append_iff.mp hr with ⟨rfl, rfl⟩ | ⟨x', rfl, rfl⟩
      · left
        rw [reverse_nil, nil_append] at ho
        rw [if_pos ho]
        exact mem_singleton.mpr rfl
      · right
        refine ⟨x', z, rfl, by simpa using ho, ?_⟩
        simp only [byte_len_cons, Nat.add_assoc]

theorem windows_from_ascend (i : Nat) (rest : List Char) :
    (windows_from before i rest).Pairwise fun a b => a.1 < b.1 := by
  induction rest generalizing before i with
  | nil =>
    rw [windows_from]
    split
    · exact pairwise_singleton _ _
    · exact List.Pairwise.nil
  | cons c rest ih =>
    rw [windows_from_cons, pairwise_append]
    refine ⟨?_, ih _ _, ?_⟩
    · split
      · exact pairwise_singleton _ _
      · exact List.Pairwise.nil
    · intro a ha b hb
      obtain ⟨x, z, -, -, rfl⟩ := mem_windows_from.mp hb
      have hp := c.utf8Size_pos
      split at ha
      · rw [mem_singleton.mp ha]
        simp only
        omega
      · cases ha

theorem sorted_windows (input : List Char) :
    ((authority_windows input).insertionSort WindowLe).destutter (· ≠ ·) =
      authority_windows input := by
  have ha := windows_from_ascend [] 0 input
  have hs : (authority_windows input).Pairwise WindowLe := ha.imp fun h => .inl h
  have hap : (authority_windows input).Pairwise (· ≠ ·) := by
    apply ha.imp
    rintro a b h rfl
    exact Nat.lt_irrefl _ h
  rw [hs.insertionSort_eq, destutter_of_isChain _ _ hap.isChain]

theorem mem_authority_windows :
    w ∈ authority_windows raw ↔
      ∃ x z, raw = x ++ z ∧ opens x.reverse z = true ∧
        w = (byte_len x, byte_len x + byte_len (window_text z)) := by
  unfold authority_windows
  rw [mem_windows_from]
  simp only [append_nil, Nat.zero_add]

/-- Whether the window that starts at an offset has an `@`. -/
def carries_userinfo (raw : List Char) (start : Nat) : Bool :=
  match cut start raw with
  | some (_, rest) => (window_text rest).contains '@'
  | none => false

/-- No window with an `@` starts inside another one and shares its end. -/
def Separate (raw : List Char) : Prop :=
  ∀ outer ∈ authority_windows raw, ∀ inner ∈ authority_windows raw, outer.1 < inner.1 →
    inner.2 = outer.2 → carries_userinfo raw inner.1 = false

instance (raw : List Char) : Decidable (Separate raw) :=
  inferInstanceAs (Decidable (∀ outer ∈ authority_windows raw, ∀ inner ∈ authority_windows raw,
    outer.1 < inner.1 → inner.2 = outer.2 → carries_userinfo raw inner.1 = false))

theorem apart_of_separate (h : Separate raw) : ApartFrom [] raw := by
  rintro x y z rfl hn ho hi he
  rw [append_nil] at ho hi
  have hou : (byte_len x, byte_len x + byte_len (window_text (y ++ z))) ∈
      authority_windows (x ++ (y ++ z)) := mem_authority_windows.mpr ⟨x, y ++ z, rfl, ho, rfl⟩
  have hin : (byte_len (x ++ y), byte_len (x ++ y) + byte_len (window_text z)) ∈
      authority_windows (x ++ (y ++ z)) := by
    apply mem_authority_windows.mpr
    exact ⟨x ++ y, z, by simp, by simpa using hi, rfl⟩
  have hl : byte_len x < byte_len (x ++ y) := by
    obtain ⟨c, y, rfl⟩ := exists_cons_of_ne_nil hn
    have := c.utf8Size_pos
    rw [byte_len_append, byte_len_cons]
    omega
  have hq := h _ hou _ hin hl (by
    simp only [byte_len_append, window_text_append z he, Nat.add_assoc])
  rw [← append_assoc, carries_userinfo, cut_append] at hq
  simpa using hq

theorem mask_authority_windows_eq (h : ApartFrom [] raw) :
    mask_authority_windows raw = some (mask_from [] raw) := by
  unfold mask_authority_windows
  rw [sorted_windows]
  exact mask_all_windows_from [] [] raw h

end camel_api.redact
