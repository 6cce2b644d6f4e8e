import TagFormula.Catalog
import TagFormula.Proofs.Session.Refinement
import TagFormula.Proofs.Text.LowerCase

/-!
# What is on offer while a name is typed

A search compares the lower case of the term with the lower case of the whole name. A piece of a
name finds the name wherever the two lower cases agree in the place of the piece, and that is so
just when the capital sigmas of the piece keep their forms (`Catalog.piece_on_offer`). A piece
without a capital sigma is always found. One that ends in a sigma in the middle of a word is looked
up with the final form, which the name does not have there.

What a session offers for a term are the first results of this search, whether the term has been
set as a whole or typed key by key.
-/

namespace TagFormula

namespace Session

/-- The session with a term to look up. -/
def searching (s : Session) (term : Text) : Session :=
  { s with searchTerm := term, showsSuggestions := !Text.isBlank term }

variable {s : Session} {term : Text}

theorem suggestions_searching (h : Text.isBlank term = false) :
    (s.searching term).suggestions = Slice.before (s.source term) s.limit := by
  simp [searching, suggestions, h]

theorem run_press_character (s : Session) (c : Char) :
    (press (.character c)).run s = .ok true (s.searching (s.searchTerm ++ [c])) := rfl

/-- Characters that are typed go behind the term. -/
theorem run_typeKeys_searching {t : Text} (h : ∀ c ∈ t, Key.ofChar c = .character c) :
    (typeKeys t).run (s.searching term) = .ok () (s.searching (term ++ t)) := by
  induction t generalizing term with
  | nil =>
      rw [List.append_nil]
      rfl
  | cons c t ih =>
      obtain ⟨hc, ht⟩ := List.forall_mem_cons.1 h
      rw [typeKeys, hc, run_bind_of_ok (run_press_character _ c)]
      have htyped : (typeKeys t).run (s.searching (term ++ [c])) =
          .ok () (s.searching (term ++ [c] ++ t)) := ih ht
      rwa [List.append_assoc, List.singleton_append] at htyped

theorem apply_typeKeys {t : Text} (hne : t ≠ []) (h : ∀ c ∈ t, Key.ofChar c = .character c) :
    s.apply (typeKeys t) = (.ok (), s.searching (s.searchTerm ++ t)) := by
  obtain ⟨c, t, rfl⟩ := List.exists_cons_of_ne_nil hne
  obtain ⟨hc, ht⟩ := List.forall_mem_cons.1 h
  refine apply_of_run_ok ?_
  rw [typeKeys, hc, run_bind_of_ok (run_press_character s c)]
  have htyped : (typeKeys t).run (s.searching (s.searchTerm ++ [c])) =
      .ok () (s.searching (s.searchTerm ++ [c] ++ t)) := run_typeKeys_searching ht
  rwa [List.append_assoc, List.singleton_append] at htyped

end Session

namespace Catalog

theorem isHit_iff {term : Text} {s : Suggestion} :
    isHit term s = true ↔ Text.lower term <:+: Text.lower s.name :=
  Text.occursIn_iff

/-- A piece whose lower case is the same in the name and on its own is found. -/
theorem isHit_of_keepsForms {s : Suggestion} {l t r : Text} (hname : s.name = l ++ t ++ r)
    (h : Text.KeepsForms l t r) : isHit t s = true := by
  rw [isHit_iff, hname, Text.lower_append_append, Text.lowerWithin_eq_lower_iff.2 h]
  exact List.infix_append _ _ _

/-- In the lower case of a name the lower case of a piece stands in the place of the piece just when
the capital sigmas of the piece keep their forms. Then the piece finds the name, so it does without
a capital sigma. A session in which the piece is looked up, or typed into an empty search, offers
what it finds as far as the limit goes. -/
theorem piece_on_offer {c : Catalog} {s : Suggestion} {l t r : Text} (hs : s ∈ c.entries)
    (hname : s.name = l ++ t ++ r) (hblank : Text.isBlank t = false) :
    (((Text.lower s.name).drop (Text.lower l).length).take (Text.lower t).length = Text.lower t ↔
      Text.KeepsForms l t r) ∧
    (Text.KeepsForms l t r → s ∈ c.search t) ∧
    ('Σ' ∉ t → s ∈ c.search t) ∧
    ∀ u : Session, u.source = c.search →
      (u.apply (Session.typeSearch t)).2.suggestions = Slice.before (c.search t) u.limit ∧
      (u.searchTerm = [] → (∀ k ∈ t, Key.ofChar k = .character k) →
        (u.apply (Session.typeKeys t)).2.suggestions = Slice.before (c.search t) u.limit) := by
  have hfound : Text.KeepsForms l t r → s ∈ c.search t := fun h =>
    mem_search.2 ⟨hblank, hs, isHit_of_keepsForms hname h⟩
  refine ⟨?_, hfound, fun h => hfound (Text.keepsForms_of_notMem h), fun u hsource => ?_⟩
  · rw [hname, Text.take_drop_lower, Text.lowerWithin_eq_lower_iff]
  have hoffer := Session.suggestions_searching (s := u) hblank
  rw [hsource] at hoffer
  refine ⟨hoffer, fun hterm hkeys => ?_⟩
  have hne : t ≠ [] := by
    rintro rfl
    exact nomatch hblank
  rw [Session.apply_typeKeys hne hkeys, hterm, List.nil_append]
  exact hoffer

/-- The end of a name is found and, typed key by key, on offer. -/
theorem piece_on_offer_ending :
    let s : Suggestion := ⟨1, "ΣΟΦΟΣ".toList, 0⟩
    let c : Catalog := ⟨[s], List.nodup_singleton _⟩
    let u : Session := .start c.search [] Session.defaultLimit
    s ∈ c.entries ∧ s.name = "ΣΟ".toList ++ "ΦΟΣ".toList ++ [] ∧
      Text.isBlank "ΦΟΣ".toList = false ∧ s ∈ c.search "ΦΟΣ".toList ∧
      (u.apply (Session.typeKeys "ΦΟΣ".toList)).2.suggestions.map (·.id) = [1] := by
  intro s c u
  have hs : s ∈ c.entries := List.mem_singleton_self s
  have hname : s.name = "ΣΟ".toList ++ "ΦΟΣ".toList ++ [] := by decide
  have hblank : Text.isBlank "ΦΟΣ".toList = false := by decide +kernel
  have hkeeps : Text.KeepsForms "ΣΟ".toList "ΦΟΣ".toList [] := by decide +kernel
  have hkeys : ∀ k ∈ "ΦΟΣ".toList, Key.ofChar k = .character k :=
    List.forall_iff_forall_mem.1 (by decide +kernel)
  obtain ⟨-, hfound, -, hoffer⟩ := piece_on_offer hs hname hblank
  refine ⟨hs, hname, hblank, hfound hkeeps, ?_⟩
  rw [(hoffer u rfl).2 rfl hkeys]
  decide +kernel

/-- In the middle of a word the name has another form of the sigma than the piece on its own. -/
example :
    let c : Catalog := ⟨[⟨1, "ΑΣΑ".toList, 0⟩], List.nodup_singleton _⟩
    (c.search "ΑΣ".toList).map (·.id) = [] ∧ (c.search "ΣΑ".toList).map (·.id) = [1] := by
  decide +kernel

end Catalog

end TagFormula
