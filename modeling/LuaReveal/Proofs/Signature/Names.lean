import LuaReveal.Proofs.Text.Identifier
import LuaReveal.Proofs.Text.Occurrence
import LuaReveal.Signature

/-!
# LuaReveal.Proofs.Signature.Names

The names of functions, and the places where they are declared.  A name is made of
identifiers joined by dots and colons (`IsName`), and a signature is found exactly where
the keyword, blanks, a name, and an opening parenthesis are written
(`nameAt?_eq_some_iff`).

So texts in which no function is declared are told by their characters: a signature
starts with the `f` of its keyword (`occurrencesAfter_append_of_notMem`), it ends with a
parenthesis (`names_append_of_notMem`), and a name in front of ` (` leaves no room for the
blanks and the name of another (`occurrencesAfter_append_parenthesis`).
-/

namespace LuaReveal.Signature

open Text (IsIdentifier afterBlanks? afterKeyword? dropBlanks isBlank isIdentifierStart isWord
  isWordAt lastAfter occurrencesAfter readIdentifier?)

/-! ## Names -/

/-- Identifiers joined by dots and colons. -/
inductive IsName : Text → Prop
  | word {w : Text} (hw : IsIdentifier w) : IsName w
  | joined {w more : Text} {c : Char} (hw : IsIdentifier w) (hc : c = '.' ∨ c = ':')
      (hm : IsName more) : IsName (w ++ c :: more)

section Names

variable {s name word rest tail : Text} {c : Char}

/-- A name is made of word characters, dots and colons. -/
theorem IsName.mem (h : IsName name) : ∀ c ∈ name, isWord c = true ∨ c = '.' ∨ c = ':' := by
  induction h with
  | word hw => exact fun c hc => .inl (hw.isWord_of_mem c hc)
  | joined hw hc _ ih =>
      intro d hd
      rcases List.mem_append.mp hd with hd | hd
      · exact .inl (hw.isWord_of_mem d hd)
      · rcases List.mem_cons.mp hd with rfl | hd
        · exact .inr hc
        · exact ih d hd

/-- A name holds no blank. -/
theorem IsName.isBlank_of_mem (h : IsName name) : ∀ c ∈ name, isBlank c = false := by
  intro c hc
  rcases h.mem c hc with hw | rfl | rfl
  · exact Text.isBlank_of_isWord hw
  · decide
  · decide

/-- A name starts with a character that is no blank. -/
theorem IsName.exists_cons (h : IsName name) : ∃ c t, name = c :: t ∧ isBlank c = false := by
  have hn : name ≠ [] := by
    cases h with
    | word hw => exact hw.ne_nil
    | joined hw _ _ => simp
  obtain ⟨c, t, rfl⟩ := List.exists_cons_of_ne_nil hn
  exact ⟨c, t, rfl, h.isBlank_of_mem c List.mem_cons_self⟩

/-- A name goes on behind an identifier and a dot or a colon, if one can be read there. -/
theorem readName?_of_joined (hw : readIdentifier? s = some (word, c :: tail))
    (hc : c = '.' ∨ c = ':') :
    readName? s =
      match readName? tail with
      | some (more, rest) => some (word ++ c :: more, rest)
      | none => some (word, c :: tail) := by
  rw [readName?]
  split
  · next h => exact absurd (hw.symm.trans h) (by simp)
  · next word' rest' h =>
      obtain ⟨rfl, rfl⟩ := Prod.mk.inj (Option.some.inj (h.symm.trans hw))
      exact if_pos hc

/-- It ends behind an identifier that neither of them follows. -/
theorem readName?_of_last (hw : readIdentifier? s = some (word, rest))
    (hr : rest.head? ≠ some '.' ∧ rest.head? ≠ some ':') : readName? s = some (word, rest) := by
  rw [readName?]
  split
  · next h => exact absurd (hw.symm.trans h) (by simp)
  · next word' rest' h =>
      obtain ⟨rfl, rfl⟩ := Prod.mk.inj (Option.some.inj (h.symm.trans hw))
      cases rest' with
      | nil => rfl
      | cons d rest =>
          have hd : ¬(d = '.' ∨ d = ':') := by simpa [not_or] using hr
          simp only [if_neg hd]

/-- What is read as a name is one. -/
theorem isName_of_readName? (h : readName? s = some (name, rest)) :
    IsName name ∧ s = name ++ rest := by
  fun_induction readName? s generalizing name rest with
  | case1 => contradiction
  | case2 s word c tail hw hc more rest' hr _ ih =>
      obtain ⟨rfl, rfl⟩ := by simpa using h
      obtain ⟨hi, _, rfl⟩ := Text.readIdentifier?_eq_some_iff.mp hw
      obtain ⟨hm, rfl⟩ := ih hr
      exact ⟨.joined hi hc hm, by simp⟩
  | case3 s word c tail hw =>
      obtain ⟨rfl, rfl⟩ := by simpa using h
      obtain ⟨hi, _, rfl⟩ := Text.readIdentifier?_eq_some_iff.mp hw
      exact ⟨.word hi, rfl⟩
  | case4 s word c tail hw =>
      obtain ⟨rfl, rfl⟩ := by simpa using h
      obtain ⟨hi, _, rfl⟩ := Text.readIdentifier?_eq_some_iff.mp hw
      exact ⟨.word hi, rfl⟩
  | case5 s word hw =>
      obtain ⟨rfl, rfl⟩ := by simpa using h
      obtain ⟨hi, _, rfl⟩ := Text.readIdentifier?_eq_some_iff.mp hw
      exact ⟨.word hi, rfl⟩

/-- A name is read as a whole if it cannot go on. -/
theorem IsName.readName?_append (h : IsName name) (hw : isWordAt rest.head? = false)
    (hr : rest.head? ≠ some '.' ∧ rest.head? ≠ some ':') :
    readName? (name ++ rest) = some (name, rest) := by
  induction h with
  | word hi => exact readName?_of_last (Text.readIdentifier?_eq_some_iff.mpr ⟨hi, hw, rfl⟩) hr
  | @joined w more c hi hc _ ih =>
      have hd : isWordAt (some c) = false := by rcases hc with rfl | rfl <;> decide
      have hread : readIdentifier? (w ++ c :: more ++ rest) = some (w, c :: (more ++ rest)) :=
        Text.readIdentifier?_eq_some_iff.mpr ⟨hi, hd, by simp⟩
      rw [readName?_of_joined hread hc, ih]

end Names

/-! ## Places of signatures -/

section Place

variable {prev : Option Char} {s name : Text}

/-- **Signatures**: the name of a function is found exactly where no word runs into the
keyword, and blanks, the name, and an opening parenthesis with or without blanks before it
follow. -/
theorem nameAt?_eq_some_iff :
    nameAt? prev s = some name ↔
      isWordAt prev = false ∧ IsName name ∧
        ∃ b b' rest, b ≠ [] ∧ (∀ c ∈ b, isBlank c = true) ∧ (∀ c ∈ b', isBlank c = true) ∧
          s = "function".toList ++ (b ++ (name ++ (b' ++ '(' :: rest))) := by
  constructor
  · intro h
    unfold nameAt? at h
    simp only [Option.bind_eq_bind, Option.bind_eq_some_iff] at h
    obtain ⟨r, hr, t, ht, ⟨found, u⟩, hn, hp⟩ := h
    obtain ⟨hprev, rfl⟩ : isWordAt prev = false ∧ s = "function".toList ++ r := by
      rw [afterKeyword?] at hr
      split at hr
      · contradiction
      · next hw => exact ⟨by simpa using hw, Text.after?_eq_some_iff.mp hr⟩
    obtain ⟨b, hb, hbb, rfl⟩ := Text.eq_of_afterBlanks? ht
    obtain ⟨hname, rfl⟩ := isName_of_readName? hn
    split at hp
    · next hh =>
        obtain rfl := Option.some.inj hp
        obtain ⟨rest, hrest⟩ := List.head?_eq_some_iff.mp hh
        refine ⟨hprev, hname, b, Text.takeBlanks u, rest, hb, hbb,
          fun _ => Text.isBlank_of_mem_takeBlanks, ?_⟩
        rw [← hrest, Text.takeBlanks_append_dropBlanks]
    · contradiction
  · rintro ⟨hprev, hname, b, b', rest, hb, hbb, hbb', rfl⟩
    obtain ⟨c, t, rfl, hc⟩ := hname.exists_cons
    have hk : afterKeyword? "function".toList prev
        ("function".toList ++ (b ++ (c :: t ++ (b' ++ '(' :: rest)))) =
          some (b ++ (c :: t ++ (b' ++ '(' :: rest))) := by
      rw [afterKeyword?, hprev, Text.after?_append]
      rfl
    have hread : readName? (c :: t ++ (b' ++ '(' :: rest)) = some (c :: t, b' ++ '(' :: rest) := by
      refine hname.readName?_append (Text.isWordAt_head?_blanks hbb' (by decide)) ?_
      cases b' with
      | nil => exact ⟨by simp, by simp⟩
      | cons d b' =>
          have hd : isBlank d = true := hbb' d List.mem_cons_self
          refine ⟨?_, ?_⟩ <;>
            · intro he
              rw [Option.some.inj he] at hd
              contradiction
    have hp : dropBlanks (b' ++ '(' :: rest) = '(' :: rest :=
      Text.dropBlanks_append_cons hbb' (by decide)
    unfold nameAt?
    simp only [Option.bind_eq_bind, hk, Option.bind_some]
    rw [List.cons_append, Text.afterBlanks?_append hb hbb hc, Option.bind_some,
      ← List.cons_append, hread, Option.bind_some, hp]
    rfl

/-- The name of a function holds no blank. -/
theorem isBlank_of_mem_names {line : Text} (h : name ∈ names line) :
    ∀ c ∈ name, isBlank c = false := by
  obtain ⟨before, after, _, _, hf⟩ := Text.mem_occurrences_iff.mp h
  exact (nameAt?_eq_some_iff.mp hf).2.1.isBlank_of_mem

end Place

/-! ## Texts without signatures -/

section Without

variable {prev : Option Char} {x : Text}

/-- No signature starts with another character than the first of its keyword. -/
theorem nameAt?_cons_of_ne {c : Char} (hc : c ≠ 'f') (s : Text) : nameAt? prev (c :: s) = none := by
  cases h : nameAt? prev (c :: s) with
  | none => rfl
  | some name =>
      obtain ⟨_, _, _, _, _, _, _, _, hs⟩ := nameAt?_eq_some_iff.mp h
      exact absurd (List.cons.inj hs).1 hc

theorem occurrencesAfter_append_of_notMem (hx : 'f' ∉ x) (s : Text) :
    occurrencesAfter nameAt? prev (x ++ s) = occurrencesAfter nameAt? (lastAfter prev x) s :=
  Text.occurrencesAfter_append_of_none fun _ _ hc s =>
    nameAt?_cons_of_ne (fun he => hx (he ▸ hc)) s

theorem occurrencesAfter_of_notMem (hx : 'f' ∉ x) : occurrencesAfter nameAt? prev x = [] := by
  have h : occurrencesAfter nameAt? prev (x ++ []) = [] := occurrencesAfter_append_of_notMem hx []
  rwa [List.append_nil] at h

/-- Of the character before a place it matters only whether it is a word character. -/
theorem nameAt?_congr {prev' : Option Char} (h : isWordAt prev = isWordAt prev') (s : Text) :
    nameAt? prev s = nameAt? prev' s := by
  unfold nameAt? afterKeyword?
  rw [h]

/-- Blanks in front of a line change none of its signatures. -/
theorem names_append_of_blanks (hx : ∀ c ∈ x, isBlank c = true) (line : Text) :
    names (x ++ line) = names line := by
  have hf : 'f' ∉ x := fun hm => absurd (hx _ hm) (by decide)
  have hw : isWordAt (lastAfter none x) = isWordAt none := by
    cases hl : x.getLast? with
    | none => simp [lastAfter, hl]
    | some c => simp [lastAfter, hl, Text.isWord_of_isBlank (hx c (List.mem_of_getLast? hl))]
  rw [names, Text.occurrences, occurrencesAfter_append_of_notMem hf, names, Text.occurrences]
  cases line with
  | nil => rfl
  | cons c line => rw [occurrencesAfter, occurrencesAfter, nameAt?_congr hw]

theorem nameAt?_nil (prev : Option Char) : nameAt? prev [] = none := by
  unfold nameAt? afterKeyword?
  split <;> rfl

/-- A signature is written up to its parenthesis, and what follows does not matter. -/
theorem nameAt?_append_of_notMem (hx : '(' ∉ x) (s : Text) :
    nameAt? prev (s ++ x) = nameAt? prev s := by
  ext name
  rw [nameAt?_eq_some_iff, nameAt?_eq_some_iff]
  refine and_congr_right fun _ => and_congr_right fun _ => ?_
  constructor
  · rintro ⟨b, b', rest, hb, hbb, hbb', hs⟩
    have hs' : s ++ x = "function".toList ++ (b ++ (name ++ b')) ++ '(' :: rest := by
      rw [hs]
      simp only [List.append_assoc]
    rcases List.append_eq_append_iff.mp hs' with ⟨y, _, hy⟩ | ⟨y, hy, hr⟩
    · exact absurd (by simp [hy]) hx
    · cases y with
      | nil =>
          obtain rfl : '(' :: rest = x := hr
          exact absurd List.mem_cons_self hx
      | cons d y =>
          obtain ⟨rfl, rfl⟩ := List.cons.inj hr
          refine ⟨b, b', y, hb, hbb, hbb', ?_⟩
          rw [hy]
          simp only [List.append_assoc]
  · rintro ⟨b, b', rest, hb, hbb, hbb', rfl⟩
    exact ⟨b, b', rest ++ x, hb, hbb, hbb', by simp⟩

/-- A text without a parenthesis adds no signature to the line that it follows. -/
theorem names_append_of_notMem (hx : '(' ∉ x) (line : Text) : names (line ++ x) = names line := by
  have hn {u : Text} (hu : '(' ∉ u) (prev : Option Char) : nameAt? prev u = none :=
    (nameAt?_append_of_notMem hu []).trans (nameAt?_nil prev)
  have hz (prev : Option Char) : occurrencesAfter nameAt? prev x = [] := by
    induction x generalizing prev with
    | nil => rfl
    | cons c x ih =>
        rw [occurrencesAfter, hn hx, ih fun h => hx (List.mem_cons_of_mem c h)]
        rfl
  have ha (prev : Option Char) : occurrencesAfter nameAt? prev (line ++ x) =
      occurrencesAfter nameAt? prev line := by
    induction line generalizing prev with
    | nil => exact hz prev
    | cons c line ih =>
        have hc : nameAt? prev (c :: (line ++ x)) = nameAt? prev (c :: line) :=
          nameAt?_append_of_notMem hx (c :: line)
        rw [List.cons_append, occurrencesAfter, occurrencesAfter, hc, ih]
  exact ha none

/-- After the keyword there is a blank, and after that a name.  A text without blanks and
an opening parenthesis behind it leave no room for both. -/
theorem nameAt?_append_parenthesis (hx : ∀ c ∈ x, isBlank c = false) (s : Text) :
    nameAt? prev (x ++ ' ' :: '(' :: s) = none := by
  cases h : nameAt? prev (x ++ ' ' :: '(' :: s) with
  | none => rfl
  | some name =>
      obtain ⟨_, hname, b, b', rest, hb, hbb, _, hs⟩ := nameAt?_eq_some_iff.mp h
      obtain ⟨e, b, rfl⟩ := List.exists_cons_of_ne_nil hb
      obtain ⟨he, hbb⟩ := List.forall_mem_cons.mp hbb
      -- the keyword ends within `x`, as it holds no blank
      have hr : ∃ y, x = "function".toList ++ y ∧
          y ++ ' ' :: '(' :: s = e :: (b ++ (name ++ (b' ++ '(' :: rest))) := by
        rcases List.append_eq_append_iff.mp hs with ⟨y, hk, hy⟩ | ⟨y, hk, hy⟩
        · cases y with
          | nil => exact ⟨[], by simpa using hk.symm, hy⟩
          | cons d y =>
              obtain rfl : ' ' = d := (List.cons.inj hy).1
              have hm : ' ' ∈ "function".toList := by rw [hk]; simp
              exact absurd hm (by decide)
        · exact ⟨y, hk, hy.symm⟩
      obtain ⟨y, rfl, hy⟩ := hr
      cases y with
      | nil =>
          -- behind the one blank there is the parenthesis, which starts no name
          have hp : '(' :: s = b ++ (name ++ (b' ++ '(' :: rest)) := (List.cons.inj hy).2
          cases b with
          | nil =>
              obtain ⟨c, t, rfl, _⟩ := hname.exists_cons
              obtain rfl : '(' = c := (List.cons.inj hp).1
              exact absurd (hname.mem '(' List.mem_cons_self) (by decide)
          | cons d b =>
              obtain rfl : '(' = d := (List.cons.inj hp).1
              exact absurd (hbb '(' List.mem_cons_self) (by decide)
      | cons d y =>
          obtain rfl : d = e := (List.cons.inj hy).1
          have hd : isBlank d = false := hx d (by simp)
          exact absurd he (by simp [hd])

theorem occurrencesAfter_append_parenthesis (hx : ∀ c ∈ x, isBlank c = false) (s : Text) :
    occurrencesAfter nameAt? prev (x ++ ' ' :: '(' :: s) =
      occurrencesAfter nameAt? (lastAfter prev x) (' ' :: '(' :: s) := by
  induction x generalizing prev with
  | nil => rfl
  | cons c x ih =>
      have hn : nameAt? prev (c :: x ++ ' ' :: '(' :: s) = none := nameAt?_append_parenthesis hx s
      rw [List.cons_append] at hn ⊢
      rw [occurrencesAfter, hn, ih fun d hd => hx d (List.mem_cons_of_mem c hd),
        Text.lastAfter_cons]
      rfl

end Without

/-! ## Signatures of lines -/

/-- The signatures of lines of which the first has the number. -/
def located (number : Nat) : List Text → List Signature
  | [] => []
  | line :: ls => (names line).map (⟨·, number⟩) ++ located (number + 1) ls

section Located

variable {ls : List Text}

theorem all_eq_located (s : Text) : all s = located 1 (Text.lines s) := by
  have hz (number : Nat) (ls : List Text) :
      ((ls.zipIdx number).flatMap fun p => (names p.1).map (⟨·, p.2⟩)) = located number ls := by
    induction ls generalizing number with
    | nil => rfl
    | cons line ls ih => rw [List.zipIdx_cons, List.flatMap_cons, ih, located]
  exact hz 1 _

theorem located_append (number : Nat) (ls ms : List Text) :
    located number (ls ++ ms) = located number ls ++ located (number + ls.length) ms := by
  induction ls generalizing number with
  | nil => rfl
  | cons line ls ih =>
      have hn : number + 1 + ls.length = number + (line :: ls).length := by
        rw [List.length_cons]
        omega
      rw [List.cons_append, located, ih, located, List.append_assoc, hn]

/-- Lines without signatures only move the lines behind them. -/
theorem located_of_names_eq_nil (h : ∀ l ∈ ls, names l = []) (number : Nat) :
    located number ls = [] := by
  induction ls generalizing number with
  | nil => rfl
  | cons line ls ih =>
      obtain ⟨hl, hls⟩ := List.forall_mem_cons.mp h
      rw [located, hl, ih hls]
      rfl

/-- Lines may change as long as their signatures do not. -/
theorem located_map {f : Text → Text} (h : ∀ l, names (f l) = names l) (number : Nat)
    (ls : List Text) : located number (ls.map f) = located number ls := by
  induction ls generalizing number with
  | nil => rfl
  | cons line ls ih => rw [List.map_cons, located, h, ih, located]

/-- The names of a source text are those of its lines in turn. -/
theorem map_name_all (s : Text) : (all s).map name = (Text.lines s).flatMap names := by
  have hz (number : Nat) (ls : List Text) :
      (located number ls).map name = ls.flatMap names := by
    induction ls generalizing number with
    | nil => rfl
    | cons line ls ih =>
        rw [located, List.map_append, ih, List.flatMap_cons]
        simp [Function.comp_def]
  rw [all_eq_located]
  exact hz 1 _

end Located

end LuaReveal.Signature
