import Cadence.Proofs.Names.Depth
import Cadence.Proofs.Target.Grammar

namespace Cadence.Target

open Names

theorem Expr.mem_argLeaves (pattern : String) (args : List Expr) :
    pattern ∈ argLeaves args ↔ ∃ arg ∈ args, pattern ∈ arg.leaves := by
  induction args with
  | nil => simp [argLeaves]
  | cons arg args ih => simp [argLeaves, ih]

theorem Expr.tokens_subset_argTokens {arg : Expr} {args : List Expr} (h : arg ∈ args) :
    arg.tokens ⊆ argTokens args := by
  obtain ⟨before, after, rfl⟩ := List.append_of_mem h
  induction before with
  | nil =>
      cases after with
      | nil => exact List.Subset.refl _
      | cons next after =>
          rw [List.nil_append, argTokens_cons_cons]
          exact List.subset_append_left _ _
  | cons first before ih =>
      have hrest := ih (by simp)
      obtain ⟨next, rest, hcons⟩ := List.exists_cons_of_ne_nil (l := before ++ arg :: after) (by simp)
      rw [List.cons_append, hcons, argTokens_cons_cons, ← hcons]
      intro token hm
      simp [hrest hm]

theorem Expr.word_mem_tokens {pattern : String} :
    (e : Expr) → pattern ∈ e.leaves → .word pattern ∈ e.tokens
  | .series p => by
      intro h
      rw [leaves, List.mem_singleton] at h
      rw [h, tokens]
      exact List.mem_singleton_self _
  | .number _ => fun h => absurd h List.not_mem_nil
  | .text _ => fun h => absurd h List.not_mem_nil
  | .flag _ => fun h => absurd h List.not_mem_nil
  | .call function args => by
      intro h
      rw [leaves, mem_argLeaves] at h
      obtain ⟨arg, harg, hleaf⟩ := h
      have htoken := tokens_subset_argTokens harg (word_mem_tokens arg hleaf)
      rw [tokens]
      simp [htoken]

-- The scan of a word counts braces as the expansion of patterns does.
theorem endDepth_of_readWord {depth : Nat} {cs word rest : List Char}
    (h : readWord depth cs = (word, .stop rest)) : endDepth depth word = 0 := by
  induction cs generalizing depth word with
  | nil =>
      rw [readWord, Prod.mk.injEq] at h
      obtain ⟨rfl, hstop⟩ := h
      split at hstop
      · assumption
      · cases hstop
  | cons c cs ih =>
      have hrest : ∀ deep, (readWord deep cs).2 = .stop rest →
          endDepth deep (readWord deep cs).1 = 0 := fun _ hstop => ih (Prod.ext rfl hstop)
      rw [readWord] at h
      split at h
      · rename_i hc
        obtain ⟨rfl, hstop⟩ := Prod.mk.inj h
        rw [hc]
        exact hrest (depth + 1) hstop
      · split at h
        · rename_i hc
          split at h
          · cases h
          · obtain ⟨rfl, hstop⟩ := Prod.mk.inj h
            rw [hc]
            exact hrest (depth - 1) hstop
        · rename_i hopen hclose
          split at h
          · rename_i hend
            cases h
            exact hend.1
          · obtain ⟨rfl, hstop⟩ := Prod.mk.inj h
            have hsame : depthAfter depth c = depth := by rw [depthAfter, if_neg hopen, if_neg hclose]
            change endDepth (depthAfter depth c) _ = 0
            rw [hsame]
            exact hrest depth hstop

theorem wordToken?_eq_word {word : List Char} {w : String} (h : wordToken? word = some (.word w)) :
    w.toList = word := by
  unfold wordToken? at h
  split at h
  · cases h
  · split at h
    · cases h
    · split at h
      · obtain ⟨_, -, hnumber⟩ := Option.map_eq_some_iff.mp h
        cases hnumber
      · cases h
        exact String.toList_ofList

-- A word token ends outside all braces.
theorem endDepth_of_front {c : Char} {cs rest : List Char} {l : Lexeme} {w : String}
    (h : front c cs = .lexeme l rest) (hl : l.token = .word w) : endDepth 0 w.toList = 0 := by
  unfold front at h
  split at h
  · rename_i token hp
    cases h
    unfold punctuation? at hp
    simp only at hl
    grind
  · split at h
    · cases h
    · split at h
      · split at h
        · cases h
        · cases h
          cases hl
      · split at h
        · rename_i hword
          split at h
          · rename_i token htoken
            cases h
            rw [show token = .word w from hl] at htoken
            rw [wordToken?_eq_word htoken]
            exact endDepth_of_readWord hword
          · cases h
        · cases h
        · cases h

theorem endDepth_of_tokenize {cs : List Char} {ls : List Lexeme} {l : Lexeme} {w : String}
    (h : tokenize cs = .ok ls) (hmem : l ∈ ls) (hl : l.token = .word w) :
    endDepth 0 w.toList = 0 := by
  fun_induction tokenize cs generalizing ls with
  | case1 =>
      cases h
      cases hmem
  | case2 c cs e hfront => cases h
  | case3 c cs rest hfront ih => exact ih h hmem
  | case4 c cs l' rest hfront e hrest ih => cases h
  | case5 c cs l' rest hfront ls' hrest ih =>
      cases h
      rcases List.mem_cons.mp hmem with rfl | hm
      · exact endDepth_of_front hfront hl
      · exact ih hrest hm

-- Each pattern of a target ends outside all braces.
theorem endDepth_of_mem_leaves {target pattern : String} {e : Expr} (h : parse target = .ok e)
    (hleaf : pattern ∈ e.leaves) : endDepth 0 pattern.toList = 0 := by
  obtain ⟨ls, htokens, hflat, -⟩ := (parse_eq_ok target e).mp h
  have hword := Expr.word_mem_tokens e hleaf
  rw [hflat] at hword
  obtain ⟨l, hmem, hl⟩ := List.mem_map.mp hword
  exact endDepth_of_tokenize htokens hmem hl

theorem tokenize_lexeme {c : Char} {cs rest : List Char} {l : Lexeme} {ls : List Lexeme}
    (h : front c cs = .lexeme l rest) (hrest : tokenize rest = .ok ls) :
    tokenize (c :: cs) = .ok (l :: ls) := by
  rw [tokenize]
  split
  · rename_i hfront
    rw [h] at hfront
    cases hfront
  · rename_i hfront
    rw [h] at hfront
    cases hfront
  · rename_i hfront
    rw [h] at hfront
    cases hfront
    rw [hrest]

theorem parse_word {target w text : String} (c : Char) (cs : List Char)
    (hchars : target.toList = c :: cs) (h : front c cs = .lexeme ⟨.word w, text⟩ []) :
    parse target = .ok (.series w) := by
  rw [parse, hchars, tokenize_lexeme h (by rw [tokenize])]
  rfl

end Cadence.Target
