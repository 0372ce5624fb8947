import Aosp.Init.PropertyService

/-! # The legal names and the trie

`is_legal_property_name` of `init/property_service.cpp` and the token loop of
`prop_area::find_property` agree on what a name is.
-/

namespace Aosp.Init

open Aosp.Lib Aosp.Bionic List

open PropArea (substrSize align)

/-- The token loop stops at an empty token, as long as its length fits into a `uint32_t`. -/
theorem substrSize_ne_zero {tl : Bytes} (fits : tl.length < 2 ^ 32)
    (ne : ∀ tok ∈ tl.splitOn dot, tok ≠ []) : substrSize tl ≠ 0 := by
  unfold substrSize
  cases separator : strchr tl dot with
  | none =>
    rw [splitOn_eq_singleton (strchr_eq_none separator)] at ne
    have pos := length_pos_of_ne_nil (ne tl (mem_singleton_self tl))
    simp only
    omega
  | some _ =>
    obtain ⟨pure, full⟩ := strchr_eq_some separator
    have cap := (List.findIdx?_eq_some_iff_getElem.mp separator).1
    rw [full, splitOn_append_cons_self_of_not_mem pure] at ne
    have pos := length_pos_of_ne_nil (ne _ mem_cons_self)
    rw [length_take] at pos
    simp only
    omega

/-- A legal name is made of tokens joined by dots, the walk to its node meets no empty token,
    and it is added unless the node of a token or the `prop_info` does not fit any more. -/
theorem legal_names_storable :
    (∀ n, isLegalPropertyName n = true ↔
      ∃ tokens : List Bytes, tokens ≠ [] ∧ (∀ tok ∈ tokens, isNameToken tok) ∧ n = [dot].intercalate tokens) ∧
    ∀ ops run n v valuelen, AreaRun.steps ops = some run → isLegalPropertyName n = true → n.length < 2 ^ 32 →
      (∀ tl, tl = n ∨ (∃ front, n = front ++ dot :: tl) → substrSize tl ≠ 0) ∧
      ∃ grown added, run.area.add n n.length v valuelen = some (grown, added) ∧
        (added = false →
          (∃ tok ∈ n.splitOn dot, paDataSize < grown.bytesUsed + align (sizeofPropBt + tok.length + 1)) ∨
            paDataSize < grown.bytesUsed + align (sizeofPropInfo + n.length + 1)) := by
  refine ⟨fun n => ?_, fun ops run n v valuelen ran legal short => ⟨fun tl part => ?_, ?_⟩⟩
  · rw [isLegalPropertyName_iff]
    constructor
    · exact fun tokens => ⟨_, splitOn_ne_nil dot n, tokens, (intercalate_splitOn dot).symm⟩
    · rintro ⟨tokens, nonempty, areTokens, rfl⟩
      rwa [splitOn_intercalate dot _ nonempty]
      intro tok mem isDot
      exact absurd ((areTokens tok mem).2 dot isDot) (by decide)
  · have nonempty := fun tok mem => (isLegalPropertyName_iff.mp legal tok mem).1
    obtain rfl | ⟨front, rfl⟩ := part
    · exact substrSize_ne_zero short nonempty
    · rw [splitOn, splitOnP_append_cons _ _ (by simp)] at nonempty
      rw [length_append, length_cons] at short
      exact substrSize_ne_zero (by omega) fun tok mem => nonempty tok (mem_append_right _ mem)
  · obtain ⟨_, same, _, refines⟩ := run_refines ops
    cases ran.symm.trans same
    obtain ⟨_, tr⟩ := refines.trie
    obtain ⟨grown, added, exec, _, _, out⟩ :=
      PropArea.add_spec tr (PropName.ofLegal n legal short) v valuelen
    refine ⟨grown, added, exec, ?_⟩
    rintro rfl
    obtain ⟨impossible, _⟩ | ⟨impossible, _⟩ | ⟨_, _, _, ⟨tok, mem, room⟩ | room⟩ := out
    · cases impossible
    · cases impossible
    · have isToken := mem_map_of_mem (f := Token.bytes) mem
      rw [PropName.tokens_bytes] at isToken
      exact .inl ⟨tok.bytes, isToken, room⟩
    · exact .inr room

set_option maxRecDepth 4000 in
/-- `a.b` is added to an area that holds `a`. -/
theorem legal_names_storable_dotted :
    ∃ run grown, AreaRun.steps [.add ⟨ascii "a", by decide, by decide, by decide⟩ ⟨ascii "1", by decide, by decide⟩] =
        some run ∧
      run.area.add (ascii "a.b") 3 (ascii "2") 1 = some (grown, true) ∧
      ∀ tl, tl = ascii "a.b" ∨ (∃ front, ascii "a.b" = front ++ dot :: tl) → substrSize tl ≠ 0 := by
  have stored : (AreaRun.steps [.add ⟨ascii "a", by decide, by decide, by decide⟩
      ⟨ascii "1", by decide, by decide⟩]).any
        (fun run => (run.area.add (ascii "a.b") 3 (ascii "2") 1).map Prod.snd = some true) = true := by
    decide
  obtain ⟨run, ran, stored⟩ := (Option.any_eq_true _ _).mp stored
  obtain ⟨sizes, grown, added, exec, -⟩ := legal_names_storable.2 _ run (ascii "a.b") (ascii "2") 1 ran
    (by decide) (by decide)
  have stored := of_decide_eq_true stored
  rw [show (3 : Nat) = (ascii "a.b").length from rfl, exec, Option.map_some, Option.some.injEq] at stored
  exact ⟨run, grown, ran, exec.trans (by rw [show added = true from stored]), sizes⟩

/-- The length of a token is stored in a `uint32_t`: one of 2^32 letters is taken for empty. -/
theorem legal_name_taken_for_empty :
    ∃ n, isLegalPropertyName n = true ∧ substrSize n = 0 ∧
      ∀ namelen v valuelen, PropArea.init.add n namelen v valuelen = some (PropArea.init, false) := by
  obtain ⟨n, isName⟩ : ∃ n : Bytes, n = replicate (2 ^ 32) 97 := ⟨_, rfl⟩
  have letters : ∀ c ∈ n, c = 97 := fun c mem => eq_of_mem_replicate (isName ▸ mem)
  have noDot : dot ∉ n := fun mem => absurd (letters dot mem) (by decide)
  have length : n.length = 2 ^ 32 := by rw [isName, length_replicate]
  have empty : substrSize n = 0 := by
    cases separator : strchr n dot with
    | none => simp [substrSize, separator, length]
    | some _ => exact absurd (by rw [(strchr_eq_some separator).2]; simp) noDot
  refine ⟨n, ?_, empty, fun _ _ _ => ?_⟩
  · rw [isLegalPropertyName_iff, splitOn_eq_singleton noDot, forall_mem_singleton]
    exact ⟨ne_nil_of_length_pos (by omega), fun c mem => by rw [letters c mem]; decide⟩
  · simp [PropArea.add, PropArea.findProperty, PropArea.findPropertyNode, empty]

end Aosp.Init
