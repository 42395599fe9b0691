-- How `split_query_pairs` in `camel-endpoint/src/uri.rs` takes a query apart. The loop goes on byte
-- by byte and slices the text anew each time, so it panics on a character of more than one byte.
-- Any other query it cuts at each `&` that stands in no `RAW(` group, and nowhere else.
import RustCamel.Endpoint.ParamsRoundTrip

open List

namespace camel_endpoint.uri

open camel_api.endpoint_uri (raw_depth raw_depth_char joined Breaks not_raw_append)

def marker : List Char := ['R', 'A', 'W', '(']

/-- A text in which each `RAW(` has a `)` of its own, and each `)` closes one. -/
inductive Balanced : List Char → Prop where
  | nil : Balanced []
  | char {c : Char} {text : List Char} (hclose : c ≠ ')') (hraw : ¬ marker <+: c :: text)
      (h : Balanced text) : Balanced (c :: text)
  | group {inner text : List Char} (hinner : Balanced inner) (h : Balanced text) :
      Balanced (marker ++ inner ++ ')' :: text)

/-- Each `&` of the part stands where a `RAW(` is open. -/
def Covered (depth : Nat) (part : List Char) : Prop :=
  ∀ before after, part = before ++ '&' :: after → 0 < raw_depth depth before

/-- A query and its parts. The parts joined by `&` are the query, each balanced group stands in
one part, and no part has an `&` outside of a `RAW(` group. -/
structure Partition (query : List Char) (pairs : List (List Char)) : Prop where
  joins : ∃ first rest, pairs = first :: rest ∧ query = first ++ joined rest
  whole : ∀ before inner after, Balanced inner →
    query = before ++ (marker ++ inner ++ ')' :: after) →
    ∃ left right start stop, pairs = left ++ (start ++ (marker ++ inner ++ ')' :: stop)) :: right ∧
      before = left.flatMap (· ++ ['&']) ++ start
  covered : ∀ pair ∈ pairs, Covered 0 pair

variable {pair query before inner after text : List Char} {depth : Nat} {c : Char}
  {pairs : List (List Char)} {part : List Char}

theorem not_marker :
    (∀ more, c = 'R' → text = 'A' :: 'W' :: '(' :: more → False) ↔ ¬ marker <+: c :: text := by
  constructor
  · rintro h ⟨more, hmore⟩
    obtain ⟨rfl, rfl⟩ := List.cons.inj hmore
    exact h more rfl rfl
  · rintro h more rfl rfl
    exact h ⟨more, rfl⟩

/-! ## Joined again, and covered -/

/-- What the loop makes of a query, when it has read `pair` already. -/
def Parts (pair : List Char) (depth : Nat) (query : List Char) (pairs : List (List Char)) : Prop :=
  ∃ first rest, pairs = (pair ++ first) :: rest ∧ query = first ++ joined rest ∧
    Covered depth first ∧ ∀ part ∈ rest, Covered 0 part

theorem Covered.char {depth' : Nat} (h : Covered depth' part) (hr : ¬ marker <+: c :: part)
    (ha : c = '&' → 0 < depth)
    (hd : ∀ text, ¬ marker <+: c :: text → raw_depth depth (c :: text) = raw_depth depth' text) :
    Covered depth (c :: part) := by
  intro before after hb
  rcases before with _ | ⟨d, before⟩
  · exact ha (List.cons.inj hb).1
  · rw [cons_append, List.cons.injEq] at hb
    obtain ⟨rfl, rfl⟩ := hb
    rw [hd before fun hs => hr (hs.trans (prefix_append (c :: before) _))]
    exact h before after rfl

theorem Covered.marker (h : Covered (depth + 1) part) :
    Covered depth ('R' :: 'A' :: 'W' :: '(' :: part) := by
  intro before after hbefore
  rcases before with _ | ⟨r, _ | ⟨a, _ | ⟨w, _ | ⟨p, before⟩⟩⟩⟩ <;> simp at hbefore
  obtain ⟨rfl, rfl, rfl, rfl, rfl⟩ := hbefore
  exact h before after rfl

/-- A character goes in front of the first part, and stands there as it stood in the query. -/
theorem Parts.char {depth' : Nat} (h : Parts (pair ++ [c]) depth' text pairs)
    (hra : ¬ marker <+: c :: text) (ha : c = '&' → 0 < depth)
    (hd : ∀ text, ¬ marker <+: c :: text → raw_depth depth (c :: text) = raw_depth depth' text) :
    Parts pair depth (c :: text) pairs := by
  obtain ⟨first, rest, hp, rfl, hf, hr⟩ := h
  refine ⟨c :: first, rest, by simpa using hp, rfl, hf.char ?_ ha hd, hr⟩
  exact fun hs => hra (hs.trans (prefix_append (c :: first) _))

theorem splitLoop_parts (h : splitLoop pair depth query = some pairs) :
    Parts pair depth query pairs := by
  fun_induction splitLoop pair depth query generalizing pairs with
  | case1 pair depth =>
    cases h
    exact ⟨[], [], by simp, rfl, by simp [Covered], by simp⟩
  | case2 pair depth text ih =>
    obtain ⟨first, rest, rfl, rfl, hf, hr⟩ := ih h
    exact ⟨'R' :: 'A' :: 'W' :: '(' :: first, rest, by simp, rfl, hf.marker, hr⟩
  | case3 => cases h
  | case4 pair depth c text hra hs hc ih =>
    refine (ih h).char (not_marker.mp hra) (by simp [hc.1]) ?_
    intro text ht
    rw [raw_depth_char (not_marker.mpr ht), if_pos hc]
  | case5 pair depth c text hra hs hc ha ih =>
    obtain ⟨rest, hsp, rfl⟩ := Option.map_eq_some_iff.mp h
    obtain ⟨first, rest, rfl, rfl, hf, hr⟩ := ih hsp
    rw [ha.2] at hf
    refine ⟨[], first :: rest, by simp, by simp [joined, ha.1], by simp [Covered], ?_⟩
    simpa using ⟨hf, hr⟩
  | case6 pair depth c text hra hs hc ha ih =>
    refine (ih h).char (not_marker.mp hra) (fun heq => ?_) ?_
    · by_contra hzero
      exact ha ⟨heq, by omega⟩
    · intro text ht
      rw [raw_depth_char (not_marker.mpr ht), if_neg hc]

/-! ## Groups in one part -/

/-- Under an open `RAW(` the loop goes over a balanced text in one go. -/
theorem splitLoop_balanced (h : Balanced inner) (hascii : ∀ c ∈ inner, c.toNat < 128)
    (pair : List Char) (depth : Nat) (after : List Char) :
    splitLoop pair (depth + 1) (inner ++ ')' :: after) =
      splitLoop (pair ++ inner) (depth + 1) (')' :: after) := by
  induction h generalizing pair depth after with
  | nil => simp
  | @char c text hclose hraw h ih =>
    have hbreak : Breaks (')' :: after) := by
      intro d hd
      cases hd
      decide
    have hsmall : ¬ 128 ≤ c.toNat := Nat.not_le_of_lt (hascii c mem_cons_self)
    rw [cons_append, splitLoop.eq_3 _ _ _ _ (not_raw_append hbreak (not_marker.mpr hraw)),
      if_neg hsmall, if_neg (fun hc => hclose hc.1), if_neg (fun hc => by omega),
      ih (fun d hd => hascii d (.tail _ hd))]
    simp
  | @group inner text hinner h ihinner ih =>
    have hin : ∀ c ∈ inner, c.toNat < 128 := fun c hc => hascii c (by simp [hc])
    have htext : ∀ c ∈ text, c.toNat < 128 := fun c hc => hascii c (by simp [hc])
    have hopen : marker ++ inner ++ ')' :: text ++ ')' :: after =
        'R' :: 'A' :: 'W' :: '(' :: (inner ++ ')' :: (text ++ ')' :: after)) := by
      simp [marker]
    rw [hopen, splitLoop, ihinner hin, splitLoop.eq_3 _ _ _ _ (by simp), if_neg (by decide),
      if_pos ⟨rfl, by omega⟩, Nat.add_sub_cancel, ih htext]
    simp [marker]

theorem splitLoop_group (h : Balanced inner) (hascii : ∀ c ∈ inner, c.toNat < 128)
    (pair : List Char) (depth : Nat) (after : List Char) :
    splitLoop pair depth (marker ++ inner ++ ')' :: after) =
      splitLoop (pair ++ (marker ++ inner ++ [')'])) depth after := by
  have hopen : marker ++ inner ++ ')' :: after =
      'R' :: 'A' :: 'W' :: '(' :: (inner ++ ')' :: after) := by
    simp [marker]
  rw [hopen, splitLoop, splitLoop_balanced h hascii, splitLoop.eq_3 _ _ _ _ (by simp),
    if_neg (by decide), if_pos ⟨rfl, by omega⟩, Nat.add_sub_cancel]
  simp [marker]

/-- Wherever a balanced group stands in the query, it stands in one part. The part may begin with
what was read already. -/
theorem splitLoop_whole (h : Balanced inner) (hsplit : splitLoop pair depth query = some pairs)
    (hquery : query = before ++ (marker ++ inner ++ ')' :: after)) :
    ∃ left right start stop, pairs = left ++ (start ++ (marker ++ inner ++ ')' :: stop)) :: right ∧
      pair ++ before = left.flatMap (· ++ ['&']) ++ start := by
  have hascii : ∀ c ∈ inner, c.toNat < 128 := by
    intro c hc
    by_contra hbig
    rw [(splitLoop_eq_none_iff _ _ _).mpr ⟨c, by simp [hquery, hc], by omega⟩] at hsplit
    cases hsplit
  fun_induction splitLoop pair depth query generalizing pairs before with
  | case1 => simp [marker] at hquery
  | case2 pair depth text ih =>
    rcases before with _ | ⟨r, _ | ⟨a, _ | ⟨w, _ | ⟨p, before⟩⟩⟩⟩ <;> simp [marker] at hquery
    · have hgroup := splitLoop_group h hascii pair depth after
      rw [show marker ++ inner ++ ')' :: after = 'R' :: 'A' :: 'W' :: '(' :: text by
        simp [marker, hquery], splitLoop, hsplit] at hgroup
      obtain ⟨first, rest, rfl, -⟩ := splitLoop_parts hgroup.symm
      exact ⟨[], rest, pair, first, by simp, by simp⟩
    · obtain ⟨rfl, rfl, rfl, rfl, rfl⟩ := hquery
      have hgroup : before ++ 'R' :: 'A' :: 'W' :: '(' :: (inner ++ ')' :: after) =
          before ++ (marker ++ inner ++ ')' :: after) := by
        simp [marker]
      obtain ⟨left, right, start, stop, rfl, hbefore⟩ := ih hsplit hgroup
      exact ⟨left, right, start, stop, rfl, by simpa using hbefore⟩
  | case3 => cases hsplit
  | case4 pair depth c text hraw hsmall hclose ih =>
    rcases before with _ | ⟨d, before⟩
    · simp [marker, hclose.1] at hquery
    · obtain ⟨rfl, rfl⟩ := List.cons.inj hquery
      obtain ⟨left, right, start, stop, rfl, hbefore⟩ := ih hsplit rfl
      exact ⟨left, right, start, stop, rfl, by simpa using hbefore⟩
  | case5 pair depth c text hraw hsmall hclose hamp ih =>
    obtain ⟨rest, hrest, rfl⟩ := Option.map_eq_some_iff.mp hsplit
    rcases before with _ | ⟨d, before⟩
    · simp [marker, hamp.1] at hquery
    · obtain ⟨rfl, rfl⟩ := List.cons.inj hquery
      obtain ⟨left, right, start, stop, rfl, hbefore⟩ := ih hrest rfl
      refine ⟨pair :: left, right, start, stop, rfl, ?_⟩
      rw [nil_append] at hbefore
      simp [hamp.1, hbefore]
  | case6 pair depth c text hraw hsmall hclose hamp ih =>
    rcases before with _ | ⟨d, before⟩
    · obtain ⟨rfl, rfl⟩ := List.cons.inj hquery
      exact absurd rfl (hraw _ rfl)
    · obtain ⟨rfl, rfl⟩ := List.cons.inj hquery
      obtain ⟨left, right, start, stop, rfl, hbefore⟩ := ih hsplit rfl
      exact ⟨left, right, start, stop, rfl, by simpa using hbefore⟩

/-! ## The law -/

/-- A query is partitioned exactly when each of its characters is one byte. -/
theorem query_is_partitioned_iff (query : List Char) :
    (∃ pairs, split_query_pairs query = some pairs ∧ Partition query pairs) ↔
      ∀ c ∈ query, c.toNat < 128 := by
  have hp := splitLoop_eq_none_iff [] 0 query
  constructor
  · rintro ⟨pairs, hs, -⟩ c hc
    by_contra hb
    have hn := hp.mpr ⟨c, hc, Nat.le_of_not_lt hb⟩
    rw [split_query_pairs, hn] at hs
    cases hs
  · intro ha
    cases hs : splitLoop [] 0 query with
    | none =>
      obtain ⟨c, hc, hb⟩ := hp.mp hs
      exact absurd (ha c hc) (Nat.not_lt_of_le hb)
    | some pairs =>
      obtain ⟨first, rest, hpa, hq, hf, hr⟩ := splitLoop_parts hs
      refine ⟨pairs, hs, ⟨first, rest, hpa, hq⟩, ?_, ?_⟩
      · intro before inner after h hg
        exact splitLoop_whole h hs hg
      · rw [hpa]
        simpa using ⟨hf, hr⟩

example : split_query_pairs "a=RAW(x&RAW(y)&z)&b=1".toList =
    some ["a=RAW(x&RAW(y)&z)".toList, "b=1".toList] := by decide

theorem accent_is_not_partitioned :
    ¬ ∃ pairs, split_query_pairs "city=Orléans".toList = some pairs ∧
      Partition "city=Orléans".toList pairs := by
  rintro ⟨pairs, hs, -⟩
  rw [split_query_pairs, (splitLoop_eq_none_iff _ _ _).mpr ⟨'é', by decide, by decide⟩] at hs
  cases hs

end camel_endpoint.uri
