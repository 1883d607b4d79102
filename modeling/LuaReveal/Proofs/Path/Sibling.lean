import LuaReveal.Path
import LuaReveal.Proofs.Text.Class

/-!
# LuaReveal.Proofs.Path.Sibling

Where the result goes if nothing else is said (`defaultOutput_sibling`).

A path is an anchor, what leads from there to a directory, and a name in it.  If it is
written in this way, its parts can be told (`parts_of_splitAnchor`), and with another
name in the parent of a path it is (`splitAnchor_join`).  The name itself is told apart
by its last dot (`splitName_append`, `splitName_cases`), and a name that is made of the
stem of another is that name only if nothing is put between (`resultName_eq_iff`).
-/

namespace LuaReveal.Path

/-! ## Ends that count -/

/-- A text that starts with no separator and not with the segment `.`.  A path whose
text is clean has no anchor, and one that is clean when read from its end ends with a
segment that counts. -/
structure Clean (s : Text) : Prop where
  head?_ne : s.head? ≠ some '/'
  ne_dot : s ≠ ['.']
  ne_dot_separator : ∀ t, s ≠ '.' :: '/' :: t

section Clean

variable {s w : Text}

/-- What is left is the end of the text. -/
theorem stripReversed_suffix (s : Text) : stripReversed s <:+ s := by
  fun_induction stripReversed s with
  | case1 s ih => exact ih.trans (List.suffix_cons _ s)
  | case2 => exact List.nil_suffix
  | case3 s ih => exact ih.trans ((List.suffix_cons _ s).trans (List.suffix_cons _ _))
  | case4 s => exact List.suffix_refl s

theorem clean_of_not (h₁ : ∀ t, s ≠ '/' :: t) (h₂ : s ≠ ['.']) (h₃ : ∀ t, s ≠ '.' :: '/' :: t) :
    Clean s where
  head?_ne h := by
    obtain ⟨t, rfl⟩ := List.head?_eq_some_iff.mp h
    exact h₁ t rfl
  ne_dot := h₂
  ne_dot_separator := h₃

theorem clean_stripReversed (s : Text) : Clean (stripReversed s) := by
  fun_induction stripReversed s with
  | case1 s ih => exact ih
  | case2 => exact ⟨by simp, by simp, by simp⟩
  | case3 s ih => exact ih
  | case4 s h₁ h₂ h₃ => exact clean_of_not h₁ h₂ h₃

/-- From a clean text nothing is stripped. -/
theorem Clean.stripReversed_eq (h : Clean s) : stripReversed s = s := by
  rw [stripReversed]
  · rintro t rfl
    exact h.head?_ne rfl
  · exact h.ne_dot
  · exact h.ne_dot_separator

/-- A clean text has no anchor. -/
theorem Clean.splitAnchor_eq (h : Clean s) : splitAnchor s = ([], s) := by
  rw [splitAnchor]
  · rintro t rfl
    exact h.head?_ne rfl
  · exact h.ne_dot
  · exact h.ne_dot_separator

/-- A text that starts with a segment that counts is clean. -/
theorem Clean.of_segment (hw : '/' ∉ w) (hn : w ≠ []) (hd : w ≠ ['.']) (s : Text) :
    Clean (w ++ s) := by
  cases w with
  | nil => exact absurd rfl hn
  | cons c r =>
      obtain ⟨hc, hr⟩ := List.ne_and_not_mem_of_not_mem_cons hw
      refine ⟨fun h => hc (Option.some.inj h).symm, fun h => ?_, fun t h => ?_⟩
      · obtain ⟨rfl, ht⟩ := List.cons.inj h
        exact hd (by rw [(List.append_eq_nil_iff.mp ht).1])
      · obtain ⟨rfl, ht⟩ := List.cons.inj h
        cases r with
        | nil => exact hd rfl
        | cons e r => exact (List.ne_and_not_mem_of_not_mem_cons hr).1 (List.cons.inj ht).1.symm

end Clean

/-! ## Paths that end with a name -/

/-- A text that can stand as the last segment of a path and name a file. -/
structure IsFileName (name : Text) : Prop where
  ne_nil : name ≠ []
  ne_dot : name ≠ ['.']
  ne_dots : name ≠ ['.', '.']
  separator_notMem : '/' ∉ name

/-- What stands before a name: nothing, or a text that a separator ends. -/
def LeadsIn (d : Text) : Prop :=
  d = [] ∨ ∃ e, d = e ++ ['/']

section Parts

variable {p anchor d name : Text}

/-- A name alone has no anchor. -/
theorem IsFileName.splitAnchor_eq (hn : IsFileName name) : splitAnchor name = ([], name) := by
  have h := Clean.of_segment hn.separator_notMem hn.ne_nil hn.ne_dot []
  rw [List.append_nil] at h
  exact h.splitAnchor_eq

/-- Nothing is stripped from a name and what stands before it. -/
theorem IsFileName.stripReversed_append (hn : IsFileName name) (s : Text) :
    stripReversed (name.reverse ++ s) = name.reverse ++ s := by
  refine (Clean.of_segment ?_ ?_ ?_ s).stripReversed_eq
  · simpa using hn.separator_notMem
  · simpa using hn.ne_nil
  · exact fun h => hn.ne_dot (List.reverse_eq_iff.mp h)

/-- The parts of a path that ends with a name. -/
theorem parts_of_splitAnchor (h : splitAnchor p = (anchor, d ++ name)) (hd : LeadsIn d)
    (hn : IsFileName name) :
    fileName? p = some name ∧ parent p = anchor ++ (stripReversed d.reverse).reverse := by
  have hb : bodyReversed p = name.reverse ++ d.reverse := by
    rw [bodyReversed, h, List.reverse_append]
    exact hn.stripReversed_append d.reverse
  have hc : ∀ c ∈ name.reverse, (c != '/') = true := fun c hc =>
    bne_iff_ne.mpr fun he => hn.separator_notMem (he ▸ List.mem_reverse.mp hc)
  have hs : d.reverse.takeWhile (· != '/') = [] ∧ d.reverse.dropWhile (· != '/') = d.reverse := by
    rcases hd with rfl | ⟨e, rfl⟩
    · exact ⟨rfl, rfl⟩
    · simp
  have ht : (bodyReversed p).takeWhile (· != '/') = name.reverse := by
    rw [hb, List.takeWhile_append_of_pos hc, hs.1, List.append_nil]
  have hw : (bodyReversed p).dropWhile (· != '/') = d.reverse := by
    rw [hb, List.dropWhile_append_of_pos hc, hs.2]
  refine ⟨?_, ?_⟩
  · unfold fileName?
    dsimp only
    rw [ht, List.reverse_reverse, if_neg (not_or.mpr ⟨hn.ne_nil, hn.ne_dots⟩)]
  · rw [parent, h, hw]

end Parts

/-! ## Another name in the same directory -/

section Join

variable {input : Path} {b name : Text}

/-- The anchor of a path is told by its first characters. -/
theorem splitAnchor_cases (p : Path) :
    (∃ s, p = '/' :: s ∧ splitAnchor p = (['/'], s)) ∨
      (p = ['.'] ∧ splitAnchor p = (['.'], [])) ∨
      (∃ s, p = '.' :: '/' :: s ∧ splitAnchor p = (['.'], '/' :: s)) ∨
      Clean p ∧ splitAnchor p = ([], p) := by
  fun_cases splitAnchor p with
  | case1 s => exact .inl ⟨s, rfl, rfl⟩
  | case2 => exact .inr (.inl ⟨rfl, rfl⟩)
  | case3 s => exact .inr (.inr (.inl ⟨s, rfl, rfl⟩))
  | case4 p h₁ h₂ h₃ => exact .inr (.inr (.inr ⟨clean_of_not h₁ h₂ h₃, rfl⟩))

/-- A path that goes on from a directory as the input does has the anchor of the
input. -/
theorem splitAnchor_append (hb : b <+: (splitAnchor input).2) (hs : Clean b.reverse)
    (hn : (splitAnchor input).1 ++ b ≠ []) (t : Text) :
    splitAnchor ((splitAnchor input).1 ++ (b ++ '/' :: t)) =
      ((splitAnchor input).1, b ++ '/' :: t) := by
  rcases splitAnchor_cases input with ⟨s, _, h⟩ | ⟨_, h⟩ | ⟨s, _, h⟩ | ⟨hc, h⟩
  · rw [h]
    rfl
  · rw [h] at hb ⊢
    rw [List.prefix_nil.mp hb]
    rfl
  · rw [h] at hb ⊢
    cases b with
    | nil => rfl
    | cons c b =>
        obtain ⟨rfl, _⟩ := List.cons_prefix_cons.mp hb
        rfl
  · -- The directory starts as the input does, and it is not the segment `.` alone.
    rw [h] at hb hn ⊢
    obtain ⟨u, rfl⟩ := hb
    cases b with
    | nil => exact absurd rfl hn
    | cons c b =>
        refine Clean.splitAnchor_eq ⟨hc.head?_ne, by simp, fun s he => ?_⟩
        obtain ⟨rfl, hb⟩ := List.cons.inj he
        cases b with
        | nil => exact hs.ne_dot rfl
        | cons e b =>
            obtain ⟨rfl, _⟩ := List.cons.inj hb
            exact hc.ne_dot_separator (b ++ u) rfl

/-- A name without separators goes behind a directory. -/
theorem join_of_notMem (h : '/' ∉ name) (p : Path) :
    join p name =
      if p = [] then name else if p.getLast? = some '/' then p ++ name else p ++ '/' :: name := by
  have hh : name.head? ≠ some '/' := fun he => h (List.mem_of_head? he)
  simp only [join, hh, false_or]

/-- No separator ends a directory but the root. -/
theorem anchor_of_getLast? (hs : Clean b.reverse)
    (hl : ((splitAnchor input).1 ++ b).getLast? = some '/') :
    (splitAnchor input).1 = ['/'] ∧ b = [] := by
  have hb : b = [] := by
    by_cases hn : b = []
    · exact hn
    · rw [List.getLast?_append, List.getLast?_eq_some_getLast hn, Option.some_or,
        ← List.getLast?_eq_some_getLast hn, ← List.head?_reverse] at hl
      exact absurd hl hs.head?_ne
  rw [hb, List.append_nil] at hl
  refine ⟨?_, hb⟩
  rcases splitAnchor_cases input with ⟨s, _, h⟩ | ⟨_, h⟩ | ⟨s, _, h⟩ | ⟨_, h⟩
  · rw [h]
  all_goals
    rw [h] at hl
    simp at hl

/-- A name in the directory of a path: the anchor is that of the path, and what leads
to the name is the directory. -/
theorem splitAnchor_join (hb : b <+: (splitAnchor input).2) (hs : Clean b.reverse)
    (hf : IsFileName name) :
    ∃ d, splitAnchor (join ((splitAnchor input).1 ++ b) name) =
        ((splitAnchor input).1, d ++ name) ∧ LeadsIn d ∧ stripReversed d.reverse = b.reverse := by
  rw [join_of_notMem hf.separator_notMem]
  split
  · next hn =>
    obtain ⟨ha, rfl⟩ := List.append_eq_nil_iff.mp hn
    exact ⟨[], by rw [ha, hf.splitAnchor_eq, List.nil_append], .inl rfl, rfl⟩
  · next hn =>
    split
    · next hl =>
      obtain ⟨ha, rfl⟩ := anchor_of_getLast? hs hl
      exact ⟨[], by rw [ha]; rfl, .inl rfl, rfl⟩
    · have hr : stripReversed ('/' :: b.reverse) = b.reverse := by
        rw [stripReversed, hs.stripReversed_eq]
      refine ⟨b ++ ['/'], ?_, .inr ⟨b, rfl⟩, by simpa using hr⟩
      rw [List.append_assoc, splitAnchor_append hb hs hn, List.append_assoc]
      rfl

/-- The text between the anchor of a path and its last segment. -/
def directory (p : Path) : Text :=
  (stripReversed ((bodyReversed p).dropWhile (· != '/'))).reverse

theorem parent_eq (p : Path) : parent p = (splitAnchor p).1 ++ directory p := rfl

theorem prefix_directory (p : Path) : directory p <+: (splitAnchor p).2 := by
  have hd : stripReversed ((bodyReversed p).dropWhile (· != '/')) <:+ bodyReversed p :=
    (stripReversed_suffix _).trans (List.dropWhile_suffix _)
  have hb : bodyReversed p <:+ (splitAnchor p).2.reverse := stripReversed_suffix _
  rw [directory, ← List.reverse_suffix, List.reverse_reverse]
  exact hd.trans hb

theorem clean_directory (p : Path) : Clean (directory p).reverse := by
  rw [directory, List.reverse_reverse]
  exact clean_stripReversed _

/-- **Another name in the parent**: the path has the name, and the same parent. -/
theorem parts_of_join_parent (input : Path) (hn : IsFileName name) :
    fileName? (join (parent input) name) = some name ∧
      parent (join (parent input) name) = parent input := by
  obtain ⟨d, hd, hl, hr⟩ := splitAnchor_join (prefix_directory input) (clean_directory input) hn
  obtain ⟨hf, hp⟩ := parts_of_splitAnchor hd hl hn
  refine ⟨hf, ?_⟩
  rw [parent_eq input, hp, hr, List.reverse_reverse]

end Join

/-! ## The dot in a name -/

section Dot

variable {name stem extension : Text}

/-- What stands before and after a dot is told, if the dot is the last and does not
start the name. -/
theorem splitName_append (hs : stem ≠ []) (he : '.' ∉ extension) :
    splitName (stem ++ '.' :: extension) = (stem, some extension) := by
  have hr : (stem ++ '.' :: extension).reverse = extension.reverse ++ '.' :: stem.reverse := by
    simp
  have hc : ∀ c ∈ extension.reverse, (c != '.') = true := fun c hc =>
    bne_iff_ne.mpr fun h => he (h ▸ List.mem_reverse.mp hc)
  rw [splitName, hr, Text.takeWhile_append_cons hc (by decide),
    Text.dropWhile_append_cons hc (by decide)]
  cases h : stem.reverse with
  | nil => exact absurd (List.reverse_eq_nil_iff.mp h) hs
  | cons c r =>
      dsimp only
      rw [List.reverse_reverse, ← h, List.reverse_reverse]

/-- A name has no extension, or it is what stands after a dot. -/
theorem splitName_cases (name : Text) :
    splitName name = (name, none) ∨ ∃ stem extension, splitName name = (stem, some extension) ∧
      stem ≠ [] ∧ name = stem ++ '.' :: extension := by
  have hn : name = ((name.reverse.dropWhile (· != '.')).reverse ++
      (name.reverse.takeWhile (· != '.')).reverse) := by
    rw [← List.reverse_append, List.takeWhile_append_dropWhile, List.reverse_reverse]
  unfold splitName
  dsimp only
  split
  · exact .inl rfl
  · exact .inl rfl
  · next d stem hs hd =>
    have hdot : d = '.' := by
      have h := List.head?_dropWhile_not (· != '.') name.reverse
      rw [hd] at h
      simpa using h
    refine .inr ⟨_, _, rfl, fun h => ?_, ?_⟩
    · exact hs (List.reverse_eq_nil_iff.mp h)
    · rw [hd, hdot, List.reverse_cons, List.append_assoc] at hn
      exact hn

end Dot

/-! ## The name of the result -/

/-- The name that a result gets beside an input: the stem, a suffix and `.lua`. -/
def resultName (name suffix : Text) : Text :=
  (splitName name).1 ++ suffix ++ ".lua".toList

section Result

variable {input : Path} {name suffix : Text}

/-- A name is not empty and holds no separator. -/
theorem ne_nil_and_notMem_of_fileName? (h : fileName? input = some name) :
    name ≠ [] ∧ '/' ∉ name := by
  unfold fileName? at h
  dsimp only at h
  split at h
  · contradiction
  · next hn =>
    obtain rfl := Option.some.inj h
    refine ⟨(not_or.mp hn).1, fun hc => ?_⟩
    have ha := List.all_eq_true.mp List.all_takeWhile '/' (List.mem_reverse.mp hc)
    contradiction

/-- A stem is not empty, and its characters are those of the name. -/
theorem ne_nil_and_subset_stem (h : name ≠ []) :
    (splitName name).1 ≠ [] ∧ (splitName name).1 ⊆ name := by
  rcases splitName_cases name with hs | ⟨stem, extension, hs, hn, rfl⟩
  · rw [hs]
    exact ⟨h, List.Subset.refl name⟩
  · rw [hs]
    exact ⟨hn, List.subset_append_left _ _⟩

theorem isFileName_resultName (h : '/' ∉ name) (hn : name ≠ []) (hs : '/' ∉ suffix) :
    IsFileName (resultName name suffix) := by
  have hst : '/' ∉ (splitName name).1 := fun hc => h ((ne_nil_and_subset_stem hn).2 hc)
  have hl : 'l' ∈ resultName name suffix := by simp [resultName]
  refine ⟨List.ne_nil_of_mem hl, fun hd => ?_, fun hd => ?_, by simp [resultName, hst, hs]⟩
  · rw [hd] at hl
    exact absurd hl (by decide)
  · rw [hd] at hl
    exact absurd hl (by decide)

theorem splitName_resultName (h : name ≠ []) (suffix : Text) :
    splitName (resultName name suffix) = ((splitName name).1 ++ suffix, some "lua".toList) :=
  splitName_append (List.append_ne_nil_of_left_ne_nil (ne_nil_and_subset_stem h).1 suffix)
    (by decide)

/-- Only a name with the extension gets itself, and only without a suffix. -/
theorem resultName_eq_iff (h : name ≠ []) :
    resultName name suffix = name ↔ suffix = [] ∧ (splitName name).2 = some "lua".toList := by
  constructor
  · intro he
    have hsplit := splitName_resultName h suffix
    rw [he] at hsplit
    refine ⟨?_, congrArg Prod.snd hsplit⟩
    simpa using congrArg Prod.fst hsplit
  · intro he
    obtain ⟨rfl, hext⟩ := he
    rcases splitName_cases name with hc | ⟨stem, extension, hc, _, hname⟩
    · rw [hc] at hext
      contradiction
    · rw [hc] at hext
      obtain rfl := Option.some.inj hext
      rw [resultName, hc, List.append_nil, hname]
      rfl

theorem defaultOutput_eq (h : fileName? input = some name) (suffix : Text) :
    defaultOutput input suffix = join (parent input) (resultName name suffix) := by
  simp [defaultOutput, withFileName, stem?, resultName, h]

/-- **The result beside the input**: unless it is told otherwise, a run writes into the
directory of its input.  The stem of the name is that of the input and the suffix, and
the extension is `lua`.  So the input is only written over if there is no suffix and
the input has that extension. -/
theorem defaultOutput_sibling (h : fileName? input = some name) (hs : '/' ∉ suffix) :
    let output := defaultOutput input suffix
    parent output = parent input ∧
      (∃ stem, stem? input = some stem ∧
        fileName? output = some (stem ++ suffix ++ ".lua".toList) ∧
        stem? output = some (stem ++ suffix)) ∧
      extension? output = some "lua".toList ∧
      (fileName? output = fileName? input ↔
        suffix = [] ∧ extension? input = some "lua".toList) := by
  intro output
  obtain ⟨hne, hsep⟩ := ne_nil_and_notMem_of_fileName? h
  obtain ⟨hf, hp⟩ := parts_of_join_parent input (isFileName_resultName hsep hne hs)
  rw [← defaultOutput_eq h] at hf hp
  have hsplit := splitName_resultName hne suffix
  refine ⟨hp, ⟨(splitName name).1, ?_, hf, ?_⟩, ?_, ?_⟩
  · rw [stem?, h, Option.map_some]
  · rw [stem?, hf, Option.map_some, hsplit]
  · rw [extension?, hf, Option.bind_some, hsplit]
  · rw [hf, h, extension?, h, Option.bind_some, Option.some_inj]
    exact resultName_eq_iff hne

/-- A name with a dot before its extension, in a path that ends with no name. -/
theorem defaultOutput_sibling_dots :
    let input := ".//d/.//..a.lua/./".toList
    let output := defaultOutput input ".lua".toList
    fileName? input = some "..a.lua".toList ∧ '/' ∉ ".lua".toList ∧
      output = ".//d/..a.lua.lua".toList ∧ parent output = parent input ∧
      extension? output = some "lua".toList ∧ fileName? output ≠ fileName? input := by
  intro input output
  have hn : fileName? input = some "..a.lua".toList := by decide +kernel
  have hs : '/' ∉ ".lua".toList := by decide
  obtain ⟨hp, _, he, hi⟩ := defaultOutput_sibling hn hs
  refine ⟨hn, hs, by decide +kernel, hp, he, fun h => ?_⟩
  exact absurd (hi.mp h).1 (by decide)

end Result

end LuaReveal.Path
