import Mathlib.Data.List.Sort
import TagFormula.Proofs.Buffer.Tagging

/-!
# The longest name at the first place

Tagging a formula reads it from left to right. Where the name of a variable fits, the longest
such name becomes a tag and is passed over; where none fits, the character is plain text. What
the buffer looks like in the end is said here without the reading: at every tag stands the
longest name that fits there, and outside the tags no name begins (`Buffer.Tagged`). With names
that are told apart this leaves no choice, so the order of the variables makes no difference
(`ofFormula_tagged`).

The plain text that has been read is held back until the next name, and whether a name fits
depends on all that follows. So the invariant of the reading is about what is to come: whatever
cells are put behind the text held back, if they are matched and have the text that is left, the
whole is matched (`matched_split`).
-/

namespace TagFormula

open Cell

namespace Variable

/-- Of the variables with a name that fits at the start of a text this one has the longest. -/
structure IsLongest (known : List Variable) (t : Text) (v : Variable) : Prop where
  mem : v ∈ known
  name_ne_nil : v.name ≠ []
  isPrefix : v.name <+: t
  length_le : ∀ u ∈ known, u.name <+: t → u.name.length ≤ v.name.length

/-- No variable has a name that fits at the start of a text, the empty name aside. -/
def NoneFits (known : List Variable) (t : Text) : Prop :=
  ∀ v ∈ known, v.name ≠ [] → ¬ v.name <+: t

variable {known known' : List Variable} {t : Text} {u v : Variable}

/-- The variable that is tried first at the start of a text and fits. -/
def fitting? (names : List Variable) (t : Text) : Option Variable :=
  names.find? fun v => v.name.isPrefixOf t

theorem mem_byLength_iff : v ∈ byLength known ↔ v ∈ known ∧ v.name ≠ [] := by
  rw [byLength, List.mem_mergeSort, List.mem_filter]
  simp

theorem pairwise_byLength (known : List Variable) :
    (byLength known).Pairwise fun u v => v.name.length ≤ u.name.length :=
  List.pairwise_mergeSort' (Order.Preimage (fun v : Variable => v.name.length) (· ≥ ·)) _

theorem isLongest_of_fitting? (h : fitting? (byLength known) t = some v) :
    IsLongest known t v := by
  obtain ⟨hv, before, rest, heq, hbefore⟩ := List.find?_eq_some_iff_append.1 h
  have hmem : v ∈ byLength known := heq ▸ List.mem_append_right before List.mem_cons_self
  obtain ⟨hknown, hname⟩ := mem_byLength_iff.1 hmem
  refine ⟨hknown, hname, List.isPrefixOf_iff_prefix.1 hv, fun u hu hfits => ?_⟩
  by_cases hempty : u.name = []
  · rw [hempty]
    exact Nat.zero_le _
  · have hu' : u ∈ before ++ v :: rest := heq ▸ mem_byLength_iff.2 ⟨hu, hempty⟩
    rcases List.mem_append.1 hu' with hu' | hu'
    · -- What comes before has been tried and does not fit.
      have hnot := hbefore u hu'
      rw [List.isPrefixOf_iff_prefix.2 hfits] at hnot
      exact absurd hnot Bool.false_ne_true
    · rcases List.mem_cons.1 hu' with rfl | hu'
      · exact Nat.le_refl _
      · have hpair := pairwise_byLength known
        rw [heq, List.pairwise_append] at hpair
        exact (List.pairwise_cons.1 hpair.2.1).1 u hu'

theorem noneFits_of_fitting? (h : fitting? (byLength known) t = none) : NoneFits known t := by
  intro v hv hname hfits
  have hnot := List.find?_eq_none.1 h v (mem_byLength_iff.2 ⟨hv, hname⟩)
  exact hnot (List.isPrefixOf_iff_prefix.2 hfits)

/-- Two names of the same length that fit at the same place are one name. -/
theorem IsLongest.eq (hnames : (known.map (·.name)).Nodup) (hu : IsLongest known t u)
    (hv : IsLongest known t v) : u = v := by
  have hlength : u.name.length = v.name.length :=
    Nat.le_antisymm (hv.length_le u hu.mem hu.isPrefix) (hu.length_le v hv.mem hv.isPrefix)
  have hname : u.name = v.name := by
    rw [List.prefix_iff_eq_take.1 hu.isPrefix, List.prefix_iff_eq_take.1 hv.isPrefix, hlength]
  exact List.inj_on_of_nodup_map hnames hu.mem hv.mem hname

theorem fitting?_eq_some_iff (hnames : (known.map (·.name)).Nodup) :
    fitting? (byLength known) t = some v ↔ IsLongest known t v := by
  refine ⟨isLongest_of_fitting?, fun h => ?_⟩
  cases hfind : fitting? (byLength known) t with
  | none => exact absurd h.isPrefix (noneFits_of_fitting? hfind v h.mem h.name_ne_nil)
  | some u => rw [(isLongest_of_fitting? hfind).eq hnames h]

theorem IsLongest.of_perm (h : IsLongest known t v) (hperm : known.Perm known') :
    IsLongest known' t v where
  mem := hperm.mem_iff.1 h.mem
  name_ne_nil := h.name_ne_nil
  isPrefix := h.isPrefix
  length_le u hu := h.length_le u (hperm.mem_iff.2 hu)

theorem fitting?_perm (hnames : (known.map (·.name)).Nodup) (hperm : known'.Perm known)
    (t : Text) : fitting? (byLength known') t = fitting? (byLength known) t := by
  have hnames' : (known'.map (·.name)).Nodup := (hperm.map _).nodup_iff.2 hnames
  ext v
  rw [fitting?_eq_some_iff hnames', fitting?_eq_some_iff hnames]
  exact ⟨fun h => h.of_perm hperm, fun h => h.of_perm hperm.symm⟩

end Variable

/-! ## Matched rows -/

/-- Every variable of a row stands at the longest name that fits there, and no name begins at a
character of plain text. -/
inductive Matched (known : List Variable) : List Cell → Prop
  | nil : Matched known []
  | char {c : Char} {cells : List Cell} (hnone : Variable.NoneFits known (c :: contents cells))
      (h : Matched known cells) : Matched known (char c :: cells)
  | tag {s : Suggestion} {cells : List Cell}
      (hlongest : Variable.IsLongest known (s.name ++ contents cells) ⟨s.name, s.value⟩)
      (h : Matched known cells) : Matched known (tag s :: cells)

namespace Matched

variable {known : List Variable} {l r : List Cell}

theorem of_append_right (h : Matched known (l ++ r)) : Matched known r := by
  induction l with
  | nil => exact h
  | cons c l ih =>
    cases h with
    | char hnone h => exact ih h
    | tag hlongest h => exact ih h

theorem noneFits {c : Char} (h : Matched known (.char c :: r)) :
    Variable.NoneFits known (contents (.char c :: r)) := by
  cases h with
  | char hnone h => exact hnone

theorem isLongest {s : Suggestion} (h : Matched known (.tag s :: r)) :
    Variable.IsLongest known (contents (.tag s :: r)) ⟨s.name, s.value⟩ := by
  cases h with
  | tag hlongest h => exact hlongest

end Matched

namespace Piece

open Variable

theorem cells_flush_append (next : Nat) (plain : Text) (pieces : List Piece) :
    cells next (flush plain ++ pieces) = plain.reverse.map char ++ cells next pieces := by
  unfold flush
  cases plain with
  | nil => rfl
  | cons c plain => rfl

/-- A name that fits is followed by the text behind it. -/
theorem eq_append_drop {c : Char} {rest name : Text} (hname : name ≠ [])
    (h : name <+: c :: rest) : name ++ rest.drop (name.length - 1) = c :: rest := by
  obtain ⟨more, hmore⟩ := h
  obtain ⟨d, name, rfl⟩ := List.exists_cons_of_ne_nil hname
  rw [List.cons_append] at hmore
  obtain ⟨rfl, rfl⟩ := List.cons.inj hmore
  simp

/-- The pieces hold the text they have been split from. -/
theorem contents_split (known : List Variable) (plain t : Text) (next : Nat) :
    contents (cells next (split (byLength known) plain t)) = plain.reverse ++ t := by
  fun_induction split (byLength known) plain t generalizing next with
  | case1 plain =>
    have hflush := cells_flush_append next plain []
    rw [List.append_nil] at hflush
    rw [hflush, contents_append, contents_map_char]
    rfl
  | case2 plain c rest v hfind ih =>
    have hv := isLongest_of_fitting? hfind
    rw [cells_flush_append, contents_append, contents_map_char, cells, contents_cons, ih, content]
    rw [List.reverse_nil, List.nil_append, eq_append_drop hv.name_ne_nil hv.isPrefix]
  | case3 plain c rest hfind ih =>
    rw [ih, List.reverse_cons, List.append_assoc]
    rfl

/-- The pieces of a text are matched if the plain text held back is matched in front of all that
has the text to come. -/
theorem matched_split (known : List Variable) {plain t : Text} (next : Nat)
    (hplain : ∀ r, contents r = t → Matched known r →
      Matched known (plain.reverse.map char ++ r)) :
    Matched known (cells next (split (byLength known) plain t)) := by
  fun_induction split (byLength known) plain t generalizing next with
  | case1 plain =>
    have hflush := cells_flush_append next plain []
    rw [List.append_nil] at hflush
    rw [hflush]
    exact hplain [] rfl .nil
  | case2 plain c rest v hfind ih =>
    have hv := isLongest_of_fitting? hfind
    have htext : v.name ++ contents (cells (next + 1) (split (byLength known) []
        (rest.drop (v.name.length - 1)))) = c :: rest := by
      rw [contents_split]
      exact eq_append_drop hv.name_ne_nil hv.isPrefix
    rw [cells_flush_append]
    refine hplain _ htext (.tag ?_ (ih (next + 1) fun r _ h => h))
    rw [htext]
    exact hv
  | case3 plain c rest hfind ih =>
    refine ih next fun r hr h => ?_
    have hnone : NoneFits known (c :: contents r) := hr ▸ noneFits_of_fitting? hfind
    have hmatched := hplain (char c :: r) (by rw [contents_cons, hr]; rfl) (.char hnone h)
    simpa using hmatched

/-- Only which variable is taken at each place matters. -/
theorem split_congr {names names' : List Variable}
    (h : ∀ t, fitting? names t = fitting? names' t) (plain t : Text) :
    split names plain t = split names' plain t := by
  fun_induction split names plain t with
  | case1 plain => rw [split]
  | case2 plain c rest v hfind ih =>
    have hfind' : names'.find? (fun v => v.name.isPrefixOf (c :: rest)) = some v :=
      (h _).symm.trans hfind
    rw [split, hfind', ih]
  | case3 plain c rest hfind ih =>
    have hfind' : names'.find? (fun v => v.name.isPrefixOf (c :: rest)) = none :=
      (h _).symm.trans hfind
    rw [split, hfind', ih]

end Piece

/-! ## Tagged formulas -/

namespace Cell

/-- The ids of a numbered row are the numbers from the first one on. -/
theorem Numbered.ids_eq {next : Nat} {cells : List Cell} (h : Numbered next cells) :
    ids cells = (List.range' next (ids cells).length).map Int.ofNat := by
  induction cells generalizing next with
  | nil => rfl
  | cons c cells ih =>
    cases c with
    | char c => exact ih h
    | tag s =>
      obtain ⟨hid, h⟩ := h
      have hrest : ids cells = (List.range' (next + 1) (ids cells).length).map Int.ofNat := ih h
      rw [ids_tag, List.length_cons, List.range'_succ, List.map_cons, ← hrest, hid]
      rfl

end Cell

namespace Buffer

open Variable

/-- The buffer of a formula whose tags are the longest names of known variables, found from left
to right. -/
structure Tagged (known : List Variable) (t : Text) (b : Buffer) : Prop where
  consistent : b.Consistent
  check_eq : b.check = .ok ()
  text_eq : b.text = t
  cursor_eq : b.cursor = t.length
  /-- The tags come in the order of the text. -/
  sortedTags_eq : b.sortedTags = b.tags
  /-- Their ids are counted up from one. -/
  ids_eq : b.ids = (List.range' 1 b.tags.length).map Int.ofNat
  /-- At every tag its name is the longest one that fits, and its value is that of the variable. -/
  isLongest : ∀ g ∈ b.tags, IsLongest known (t.drop g.position.toNat) ⟨g.name, g.value⟩
  /-- Outside the tags no name begins. -/
  noneFits : ∀ p : Nat, (∀ g ∈ b.tags, ¬ (g.position ≤ p ∧ p < g.stop)) →
    NoneFits known (t.drop p)

variable {known : List Variable}

/-- At a joint of a row that is not at a tag stands plain text. -/
theorem Layout.noneFits {b : Buffer} {cells : List Cell} (h : b.Layout cells)
    (hmatched : Matched known cells) {p : Nat}
    (hout : ∀ g ∈ b.tags, ¬ (g.position ≤ p ∧ p < g.stop)) :
    NoneFits known (b.text.drop p) := by
  by_cases hp : p < b.text.length
  · have hboundary : b.IsBoundary p :=
      ⟨Int.natCast_nonneg p, Int.ofNat_le.2 (Nat.le_of_lt hp),
        fun g hg hin => hout g hg ⟨Int.le_of_lt hin.1, hin.2⟩⟩
    obtain ⟨l, r, rfl, hl⟩ := h.isBoundary_iff.1 hboundary
    have hdrop : b.text.drop p = contents r := by
      rw [h.text_eq, contents_append, ← Int.ofNat.inj hl, extent, List.drop_left]
    rw [hdrop]
    cases r with
    | nil =>
      rw [h.text_eq, List.append_nil, ← extent] at hp
      omega
    | cons c r =>
      cases c with
      | char c => exact hmatched.of_append_right.noneFits
      | tag s =>
        -- A tag at the joint would cover it.
        let g : Tag := .ofSuggestion s (extent l)
        have hg : g ∈ b.tags := h.mem_tags_iff.2 ⟨l, r, rfl, rfl⟩
        have hstop : (p : Int) < g.stop := hl ▸ h.position_lt_stop hg
        exact absurd ⟨Int.le_of_eq hl, hstop⟩ (hout g hg)
  · rw [List.drop_eq_nil_of_le (Nat.le_of_not_lt hp)]
    exact fun v _ hname hfits => hname (List.prefix_nil.1 hfits)

theorem tagged_ofCells {cells : List Cell} (hwellFormed : WellFormed cells)
    (hmatched : Matched known cells) (hnumbered : Numbered (1 : Nat) cells) :
    (ofCells cells (extent cells)).Tagged known (contents cells) := by
  have hlayout := layout_ofCells hwellFormed (Int.natCast_nonneg _) (Int.le_refl _)
  have hids : (ofCells cells (extent cells)).ids = Cell.ids cells := map_id_tagsFrom 0 cells
  refine ⟨hlayout.consistent, hlayout.check_eq, rfl, rfl, hlayout.sortedTags_eq, ?_, ?_,
    fun p => hlayout.noneFits hmatched⟩
  · have hlength : (ofCells cells (extent cells)).tags.length = (Cell.ids cells).length := by
      rw [← hids, Buffer.ids, List.length_map]
    rw [hids, hlength]
    exact hnumbered.ids_eq
  · intro g hg
    obtain ⟨l, r, rfl, hp⟩ := hlayout.mem_tags_iff.1 hg
    rw [hp, Int.toNat_natCast, contents_append, extent, List.drop_left]
    exact hmatched.of_append_right.isLongest

/-- With finite variables of different names every formula is tagged, at each place with the
longest name, and in the same way whatever the order of the variables. The names are texts, so this
is not said of names with a surrogate that stands alone. -/
theorem ofFormula_tagged (hnames : (known.map (·.name)).Nodup)
    (hvalues : ∀ v ∈ known, Binary64.isFinite v.value = true) (t : Text) :
    ∃ b, ofFormula t known = .ok b ∧ b.Tagged known t ∧
      ∀ known', known'.Perm known → ofFormula t known' = .ok b := by
  obtain ⟨hformula, hwellFormed⟩ := ofFormula_eq hvalues t
  have hmatched : Matched known (formulaCells t known) :=
    Piece.matched_split known 1 fun r _ h => h
  have htext : contents (formulaCells t known) = t := Piece.contents_split known [] t 1
  have htagged := tagged_ofCells hwellFormed hmatched (Piece.numbered_cells 1 _)
  rw [htext] at htagged
  refine ⟨_, hformula, htagged, fun known' hperm => ?_⟩
  have hsame : formulaCells t known' = formulaCells t known := by
    rw [formulaCells, formulaCells, Piece.split_congr (fitting?_perm hnames hperm)]
  rw [(ofFormula_eq (fun v hv => hvalues v (hperm.mem_iff.1 hv)) t).1, hsame]

/-- Two variables, the name of one of them the beginning of the name of the other. -/
def nested : List Variable :=
  [⟨['A'], 3⟩, ⟨['A', 'B'], 2⟩]

theorem ofFormula_tagged_nested :
    (nested.map (·.name)).Nodup ∧ (∀ v ∈ nested, Binary64.isFinite v.value = true) ∧
      ∃ b, ofFormula "AB+A".toList nested = .ok b ∧ b.Tagged nested "AB+A".toList ∧
        ofFormula "AB+A".toList nested.reverse = .ok b := by
  have hnames : (nested.map (·.name)).Nodup := by decide
  have hvalues : ∀ v ∈ nested, Binary64.isFinite v.value = true := by
    simp only [nested, List.forall_mem_cons, List.not_mem_nil, false_implies, implies_true,
      and_true]
    decide +kernel
  obtain ⟨b, hformula, htagged, horder⟩ := ofFormula_tagged hnames hvalues "AB+A".toList
  exact ⟨hnames, hvalues, b, hformula, htagged, horder _ nested.reverse_perm⟩

end Buffer

end TagFormula
