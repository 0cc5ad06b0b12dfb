import LiveSpec.Proofs.Resource.Canonical

/-!
# Links lead to what they were written for

The link from a document to a resource goes up to the directory that both share, and spells out the
rest of the way (`Resource.SpelledOut`). Following it cuts it off at the first `#` or `?`. So it
leads back to the resource exactly if no spelled-out segment contains one of these
(`Resource.resolve_linkTo_iff`). The segments of the shared directory do not matter, since they are
not in the link.

The two halves meet in what is left of a link that is cut off in the middle of a segment
(`Resource.linkTarget_cut`).
-/

namespace LiveSpec.Resource

variable {r target : Resource} {as bs at_ start ss us : List String} {s bad : String} {n i : Nat}

/-! ## The shared directory -/

theorem sharedLength_le_left : sharedLength as bs ≤ as.length := by
  fun_induction sharedLength as bs with
  | case1 as b bs ih => exact Nat.succ_le_succ ih
  | case2 => exact Nat.zero_le _
  | case3 => exact Nat.zero_le _

theorem sharedLength_le_right : sharedLength as bs ≤ bs.length := by
  fun_induction sharedLength as bs with
  | case1 as b bs ih => exact Nat.succ_le_succ ih
  | case2 => exact Nat.zero_le _
  | case3 => exact Nat.zero_le _

/-- As many segments are shared as the second list starts with that the first one starts with as
well. -/
theorem take_prefix_iff (hn : n ≤ bs.length) : bs.take n <+: as ↔ n ≤ sharedLength as bs := by
  induction bs generalizing as n with
  | nil =>
    obtain rfl := Nat.le_zero.mp hn
    simp
  | cons b bs ih =>
    cases n with
    | zero => simp
    | succ n =>
      cases as with
      | nil => simp [sharedLength]
      | cons a as =>
        rw [List.take_succ_cons, List.cons_prefix_cons, sharedLength,
          ih (Nat.le_of_succ_le_succ hn)]
        by_cases hab : a = b
        · simp [hab]
        · simp [hab, Ne.symm hab]

/-- The number of segments of a target that its link leaves out: those that it shares with the
directory of the document, but never the last one. -/
def leftOut (r target : Resource) : Nat :=
  min (sharedLength r.directory target.segments) (target.segments.length - 1)

/-- A link leaves out no more than the directory. -/
theorem leftOut_le_directory : r.leftOut target ≤ r.directory.length :=
  Nat.le_trans (Nat.min_le_left _ _) sharedLength_le_left

/-- What is left out is where the document lies. -/
theorem take_leftOut : r.directory.take (r.leftOut target) = target.segments.take
    (r.leftOut target) := by
  have hle : r.leftOut target ≤ target.segments.length :=
    Nat.le_trans (Nat.min_le_left _ _) sharedLength_le_right
  have hprefix : target.segments.take (r.leftOut target) <+: r.directory :=
    (take_prefix_iff hle).mpr (Nat.min_le_left _ _)
  rw [List.prefix_iff_eq_take.mp hprefix, List.length_take, Nat.min_eq_left hle]

/-- The link from a document to a target spells out a segment of the target if it is the last one,
or if it is not on the way to the directory of the document. -/
def SpelledOut (r target : Resource) (i : Nat) : Prop :=
  i + 1 = target.segments.length ∨ ¬ target.segments.take (i + 1) <+: r.directory

/-- The segments that are spelled out are those after the ones left out. -/
theorem spelledOut_iff (hi : i < target.segments.length) : r.SpelledOut target i ↔
    r.leftOut target ≤ i := by
  unfold SpelledOut leftOut
  rw [take_prefix_iff hi]
  omega

/-- The link goes up, and down again. -/
theorem linkTo_eq : r.linkTo target = "/".intercalate
    (List.replicate (r.directory.length - r.leftOut target) ".." ++
      target.segments.drop (r.leftOut target)) := rfl

/-! ## Walking over a link -/

/-- So many steps up leave so many segments less. -/
theorem foldl_step_up : (List.replicate n "..").foldl step at_ = at_.take (at_.length - n) := by
  induction n generalizing at_ with
  | zero => simp
  | succ n ih =>
    have hup : step at_ ".." = at_.dropLast := rfl
    rw [List.replicate_succ, List.foldl_cons, hup, ih, List.dropLast_eq_take, List.take_take,
      List.length_take]
    congr 1
    omega

/-- Going up from its directory, a document comes to what is left out of a link. -/
theorem foldl_step_ups :
    (List.replicate (r.directory.length - r.leftOut target) "..").foldl step r.directory =
    target.segments.take (r.leftOut target) := by
  rw [foldl_step_up, Nat.sub_sub_self leftOut_le_directory, take_leftOut]

/-- A walk along joined segments takes them one by one. -/
theorem walk_joined (hss : ∀ s ∈ ss, '/' ∉ s.toList) :
    walk start ("/".intercalate ss) = ss.foldl step start := by
  cases ss with
  | nil => rfl
  | cons s ss =>
    unfold walk
    rw [steps_intercalate hss (List.cons_ne_nil s ss)]

/-! ## What is left of a link -/

/-- A text without the characters that a link is cut off at. -/
def Unmarked (s : String) : Prop := '#' ∉ s.toList ∧ '?' ∉ s.toList

instance {s : String} : Decidable (Unmarked s) := instDecidableAnd

/-- Says whether a link goes on at a character. -/
def goesOn (c : Char) : Bool := c != '#' && c != '?'

/-- A segment is unmarked if a link target goes on through all of it. -/
theorem unmarked_iff : Unmarked s ↔ ∀ c ∈ s.toList, goesOn c = true := by
  unfold Unmarked goesOn
  constructor
  · intro h c hc
    simp only [Bool.and_eq_true, bne_iff_ne]
    exact ⟨fun heq => h.1 (heq ▸ hc), fun heq => h.2 (heq ▸ hc)⟩
  · intro h
    exact ⟨fun hc => absurd (h _ hc) (by decide), fun hc => absurd (h _ hc) (by decide)⟩

/-- A link's target ends at its first mark. -/
theorem toList_linkTarget : (linkTarget s).toList = s.toList.takeWhile goesOn :=
  String.toList_ofList

/-- There is no mark in a target. -/
theorem unmarked_linkTarget : Unmarked (linkTarget s) := by
  rw [unmarked_iff, toList_linkTarget]
  exact fun c hc => List.mem_takeWhile_imp hc

/-- What is left of a link starts as the link does. -/
theorem startsWith_linkTarget (hs : s.startsWith "/" = false) :
    (linkTarget s).startsWith "/" = false := by
  rw [Bool.eq_false_iff, ne_eq, String.startsWith_string_iff] at hs ⊢
  rw [toList_linkTarget]
  exact fun hstarts => hs (hstarts.trans (List.takeWhile_prefix goesOn))

/-- What stands before the first mark is all of the target. -/
theorem linkTarget_append (hs : Unmarked s) (rest : String) :
    linkTarget (s ++ rest) = s ++ linkTarget rest := by
  refine String.toList_inj.mp ?_
  rw [toList_linkTarget, String.toList_append, List.takeWhile_append_of_pos (unmarked_iff.mp hs),
    String.toList_append,
    toList_linkTarget]

/-- What stands after the first mark is none of it. -/
theorem linkTarget_append_of_marked (hs : ¬ Unmarked s) (rest : String) :
    linkTarget (s ++ rest) = linkTarget s := by
  have hshort : ¬ (s.toList.takeWhile goesOn).length = s.toList.length := by
    intro hlength
    have hall := List.takeWhile_eq_self_iff.mp ((List.takeWhile_prefix goesOn).eq_of_length hlength)
    exact hs (unmarked_iff.mpr hall)
  refine String.toList_inj.mp ?_
  rw [toList_linkTarget, toList_linkTarget, String.toList_append, List.takeWhile_append,
    if_neg hshort]

/-- A slash is no mark. -/
theorem linkTarget_slash (hs : Unmarked s) (rest : String) :
    linkTarget (s ++ "/" ++ rest) = s ++ "/" ++ linkTarget rest := by
  have hslash : Unmarked "/" := by decide
  rw [String.append_assoc, linkTarget_append hs, linkTarget_append hslash, String.append_assoc]

/-- A link without marks is followed to its end. -/
theorem linkTarget_joined (hss : ∀ s ∈ ss, Unmarked s) :
    linkTarget ("/".intercalate ss) = "/".intercalate ss := by
  induction ss with
  | nil => rfl
  | cons s ss ih =>
    have hs := hss s List.mem_cons_self
    cases ss with
    | nil =>
      have happend := linkTarget_append hs ""
      rw [String.append_empty] at happend
      rw [String.intercalate_singleton, happend]
      exact String.append_empty
    | cons s' ss =>
      rw [String.intercalate_cons_cons, linkTarget_slash hs,
        ih fun x hx => hss x (List.mem_cons_of_mem s hx)]

/-- **A link is cut off in the middle of the first segment with a mark.** -/
theorem linkTarget_cut (hus : ∀ s ∈ us, Unmarked s) (hbad : ¬ Unmarked bad) :
    linkTarget ("/".intercalate (us ++ bad :: ss)) = "/".intercalate (us ++ [linkTarget bad]) := by
  induction us with
  | nil =>
    cases ss with
    | nil => rw [List.nil_append, List.nil_append, String.intercalate_singleton,
      String.intercalate_singleton]
    | cons s ss =>
      rw [List.nil_append, List.nil_append, String.intercalate_singleton,
        String.intercalate_cons_cons,
        String.append_assoc, linkTarget_append_of_marked hbad]
  | cons u us ih =>
    rw [List.cons_append, List.cons_append, String.intercalate_cons_of_ne_nil (by simp),
      String.intercalate_cons_of_ne_nil (by simp), linkTarget_slash (hus u List.mem_cons_self),
      ih fun s hs => hus s (List.mem_cons_of_mem u hs)]

/-! ## Following a link -/

/-- What is left of a segment with a mark does not lead where the segment leads. -/
theorem step_cut_ne (hbad : ¬ Unmarked bad) : step at_ (linkTarget bad) ≠ at_ ++ bad :: ss := by
  intro heq
  have hlength := congrArg List.length heq
  rw [List.length_append, List.length_cons] at hlength
  unfold step at heq hlength
  split at heq
  · next hstays =>
    rw [if_pos hstays] at hlength
    omega
  · next hgoes =>
    rw [if_neg hgoes] at hlength
    split at heq
    · next hup =>
      rw [if_pos hup, List.length_dropLast] at hlength
      omega
    · -- it leads to another name
      obtain ⟨hsame, -⟩ := List.cons.inj (List.append_cancel_left heq)
      exact hbad (hsame ▸ unmarked_linkTarget)

/-- Steps up have no mark. -/
theorem unmarked_of_mem_replicate (hs : s ∈ List.replicate n "..") : Unmarked s := by
  rw [List.eq_of_mem_replicate hs]
  decide

section Canonical

variable (ht : target.Canonical)
include ht

/-- No segment of a link is empty or has a slash. -/
theorem Canonical.no_slash_in_link
    (hs : s ∈ List.replicate (r.directory.length - r.leftOut target) ".." ++
      target.segments.drop (r.leftOut target)) :
    s ≠ "" ∧ '/' ∉ s.toList := by
  rcases List.mem_append.mp hs with hs | hs
  · rw [List.eq_of_mem_replicate hs]
    decide
  · have hproper := ht s (List.mem_of_mem_drop hs)
    exact ⟨hproper.ne_empty, hproper.no_slash⟩

/-- A link never starts at the root. -/
theorem Canonical.startsWith_linkTo : (r.linkTo target).startsWith "/" = false := by
  rw [linkTo_eq]
  exact startsWith_joined fun s hs => ht.no_slash_in_link hs

/-- A link is resolved by walking its target from the directory. -/
theorem Canonical.segments_resolve_linkTo :
    (r.resolve (r.linkTo target)).segments = walk r.directory (linkTarget (r.linkTo target)) :=
  segments_resolve (startsWith_linkTarget ht.startsWith_linkTo)

/-- **A link without marks leads back.** -/
theorem Canonical.resolve_linkTo (hspelled : ∀ s ∈ target.segments.drop (r.leftOut target),
    Unmarked s) :
    r.resolve (r.linkTo target) = target := by
  have hwhole : linkTarget (r.linkTo target) = r.linkTo target := by
    rw [linkTo_eq]
    refine linkTarget_joined fun s hs => ?_
    exact (List.mem_append.mp hs).elim unmarked_of_mem_replicate (hspelled s)
  have hproper : ∀ s ∈ target.segments.drop (r.leftOut target), Proper s :=
    fun s hs => ht s (List.mem_of_mem_drop hs)
  refine eq_of_segments ?_
  calc (r.resolve (r.linkTo target)).segments
    _ = walk r.directory (r.linkTo target) := by rw [ht.segments_resolve_linkTo, hwhole]
    _ = (target.segments.drop (r.leftOut target)).foldl step
      (target.segments.take (r.leftOut target)) := by
      rw [linkTo_eq, walk_joined fun s hs => (ht.no_slash_in_link hs).2, List.foldl_append,
        foldl_step_ups]
    _ = target.segments := by rw [foldl_step_of_proper hproper, List.take_append_drop]

/-- **A link with a mark leads elsewhere.** -/
theorem Canonical.resolve_linkTo_ne (hmarked : ∃ s ∈ target.segments.drop (r.leftOut target),
    ¬ Unmarked s) :
    r.resolve (r.linkTo target) ≠ target := by
  -- up to the first segment with a mark the link is followed
  obtain ⟨bad, hbad⟩ : ∃ bad, (target.segments.drop (r.leftOut target)).find?
    (fun s => ¬ Unmarked s) = some bad := by
    obtain ⟨s, hs, hmark⟩ := hmarked
    exact Option.isSome_iff_exists.mp (List.find?_isSome.mpr ⟨s, hs, by simpa using hmark⟩)
  obtain ⟨hbad, us, ss, hspelled, hus⟩ := List.find?_eq_some_iff_append.mp hbad
  have hbad : ¬ Unmarked bad := of_decide_eq_true hbad
  have hus : ∀ s ∈ us, Unmarked s := by simpa using hus
  have hsegments : target.segments = target.segments.take (r.leftOut target) ++ us ++
      bad :: ss := by
    rw [List.append_assoc, ← hspelled, List.take_append_drop]
  have hproper : ∀ s ∈ us, Proper s := fun s hs => ht s (hsegments ▸ by simp [hs])
  let ups := List.replicate (r.directory.length - r.leftOut target) ".."
  have hcut : linkTarget (r.linkTo target) = "/".intercalate (ups ++ us ++ [linkTarget bad]) := by
    rw [linkTo_eq, hspelled, ← List.append_assoc]
    refine linkTarget_cut (fun s hs => ?_) hbad
    exact (List.mem_append.mp hs).elim unmarked_of_mem_replicate (hus s)
  have hslash : ∀ s ∈ ups ++ us ++ [linkTarget bad], '/' ∉ s.toList := by
    intro s hs
    have hlink : ∀ x ∈ ups ++ us ++ bad :: ss, '/' ∉ x.toList := by
      rw [List.append_assoc, ← hspelled]
      exact fun x hx => (ht.no_slash_in_link hx).2
    rcases List.mem_append.mp hs with hs | hs
    · exact hlink s (List.mem_append_left _ hs)
    · rw [List.mem_singleton.mp hs, toList_linkTarget]
      exact fun hmem => hlink bad (by simp) ((List.takeWhile_prefix goesOn).subset hmem)
  have hleads : (r.resolve (r.linkTo target)).segments =
      step (target.segments.take (r.leftOut target) ++ us) (linkTarget bad) := by
    rw [ht.segments_resolve_linkTo, hcut, walk_joined hslash, List.foldl_append, List.foldl_append,
      foldl_step_ups,
      foldl_step_of_proper hproper]
    rfl
  intro hback
  rw [hback] at hleads
  exact step_cut_ne hbad (hleads.symm.trans hsegments)

end Canonical

/-- **A link leads back to what it was written for exactly if nothing in it is cut off.** The link
from one resource to another, followed from the first, leads to the second if and only if no segment
that it spells out contains `#` or `?`; and it never starts with a slash. -/
theorem resolve_linkTo_iff (ht : target.Reachable) :
    (r.resolve (r.linkTo target) = target ↔
      ∀ i s, target.segments[i]? = some s → r.SpelledOut target i →
        '#' ∉ s.toList ∧ '?' ∉ s.toList) ∧
    (r.linkTo target).startsWith "/" = false := by
  have ht := ht.canonical
  refine ⟨⟨fun hback i s hi hspelled => ?_, fun hunmarked => ?_⟩, ht.startsWith_linkTo⟩
  · obtain ⟨hlt, -⟩ := List.getElem?_eq_some_iff.mp hi
    have hle := (spelledOut_iff hlt).mp hspelled
    have hmem : s ∈ target.segments.drop (r.leftOut target) := by
      refine List.mem_iff_getElem?.mpr ⟨i - r.leftOut target, ?_⟩
      rw [List.getElem?_drop, Nat.add_sub_cancel' hle, hi]
    exact Decidable.byContradiction fun hmarked => ht.resolve_linkTo_ne ⟨s, hmem, hmarked⟩ hback
  · refine ht.resolve_linkTo fun s hs => ?_
    obtain ⟨j, hj⟩ := List.mem_iff_getElem?.mp hs
    rw [List.getElem?_drop] at hj
    obtain ⟨hlt, -⟩ := List.getElem?_eq_some_iff.mp hj
    exact hunmarked _ s hj ((spelledOut_iff hlt).mpr (Nat.le_add_right _ j))

/-- From a document beside the target, a `#` in the name of their directory does not matter. From
elsewhere it does. -/
theorem resolve_linkTo_iff_beside : (ofPath "a#b/y").Reachable ∧
    (ofPath "a#b/x").resolve ((ofPath "a#b/x").linkTo (ofPath "a#b/y")) = ofPath "a#b/y" ∧
    (ofPath "x").resolve ((ofPath "x").linkTo (ofPath "a#b/y")) ≠ ofPath "a#b/y" := by
  have hreachable : (ofPath "a#b/y").Reachable := .ofPath _
  have hsegments : (ofPath "a#b/y").segments = ["a#b", "y"] := by decide
  have hbeside : (ofPath "a#b/x").directory = ["a#b"] := by decide
  have helsewhere : (ofPath "x").directory = [] := by decide
  refine ⟨hreachable, (resolve_linkTo_iff hreachable).1.mpr fun i s hi hspelled => ?_,
    fun hback => ?_⟩
  · unfold SpelledOut at hspelled
    rw [hsegments] at hi hspelled
    rw [hbeside] at hspelled
    match i with
    | 0 => exact absurd hspelled (by decide)
    | 1 =>
      cases hi
      decide
  · have hunmarked := (resolve_linkTo_iff hreachable).1.mp hback 0 "a#b" (by rw [hsegments]; rfl)
    unfold SpelledOut at hunmarked
    rw [hsegments, helsewhere] at hunmarked
    exact absurd (hunmarked (by decide)) (by decide)

end LiveSpec.Resource
