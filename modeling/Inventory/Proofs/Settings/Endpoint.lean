import Inventory.Settings.Endpoint
import Mathlib.Data.List.Infix

/-!
# Inventory.Proofs.Settings.Endpoint

What an address shows of the user and the password in it.

An address is cut at the first `://` and at the last `@` after it. A scheme without `://` does not end in
part of one, so it is cut off whole (`splitScheme?_eq_some_iff`), and what is shown after it has no `@` left
(`at_not_mem_of_afterLastAt?`). Marks inside the credentials therefore move neither cut.
-/

namespace Inventory.Endpoint

variable {l scheme rest host : List Char}

/-! ## After the last at sign -/

theorem afterLastAt?_eq_none_iff : afterLastAt? l = none ↔ '@' ∉ l := by
  induction l with
  | nil => simp [afterLastAt?]
  | cons c l ih =>
      by_cases hc : c = '@'
      · simp [afterLastAt?, hc]
      · simp [afterLastAt?, ih, hc, Ne.symm hc]

theorem afterLastAt?_append (h : '@' ∉ host) (user : List Char) :
    afterLastAt? (user ++ '@' :: host) = some host := by
  induction user with
  | nil =>
      rw [List.nil_append, afterLastAt?, afterLastAt?_eq_none_iff.2 h]
      rfl
  | cons c user ih =>
      rw [List.cons_append, afterLastAt?, ih]
      rfl

theorem at_not_mem_of_afterLastAt? (h : afterLastAt? l = some host) : '@' ∉ host := by
  induction l with
  | nil => contradiction
  | cons c l ih =>
      rw [afterLastAt?] at h
      cases hlater : afterLastAt? l with
      | some later =>
          rw [hlater] at h
          exact ih (hlater.trans h)
      | none =>
          rw [hlater] at h
          change (if c = '@' then some l else none) = some host at h
          split at h
          · cases h
            exact afterLastAt?_eq_none_iff.1 hlater
          · contradiction

/-! ## Before the scheme ends -/

/-- The mark has no end that is also a beginning of it, so nothing that is put before it makes it begin
earlier. -/
theorem mark_prefix_of_append {c : Char}
    (h : "://".toList <+: c :: scheme ++ "://".toList ++ rest) : "://".toList <+: c :: scheme := by
  have hmark : "://".toList = [':', '/', '/'] := rfl
  rw [hmark] at h ⊢
  rcases scheme with _ | ⟨d, _ | ⟨e, scheme⟩⟩ <;>
    simp only [List.cons_append, List.nil_append, List.cons_prefix_cons] at h ⊢
  · exact absurd h.2.1 (by decide)
  · exact absurd h.2.2.1 (by decide)
  · exact ⟨h.1, h.2.1, h.2.2.1, List.nil_prefix⟩

/-- The scheme is all that comes before some `://` and has none itself. -/
theorem splitScheme?_eq_some_iff : splitScheme? l = some (scheme, rest) ↔
    l = scheme ++ "://".toList ++ rest ∧ ¬ "://".toList <:+: scheme := by
  fun_induction splitScheme? l generalizing scheme with
  | case1 => simp
  | case2 tail =>
      cases scheme with
      | nil =>
          constructor
          · intro h
            cases h
            exact ⟨rfl, by simp⟩
          · rintro ⟨hl, -⟩
            cases hl
            rfl
      | cons c scheme =>
          refine iff_of_false (by simp) fun ⟨hl, hinfix⟩ => hinfix ?_
          exact List.infix_cons_iff.2 (.inl (mark_prefix_of_append ⟨tail, hl⟩))
  | case3 c tail hnot ih =>
      have hprefix : ¬ "://".toList <+: c :: tail := by
        rintro ⟨more, hmore⟩
        obtain ⟨hc, hmore⟩ := List.cons.inj hmore
        exact hnot more hc.symm hmore.symm
      cases scheme with
      | nil => exact iff_of_false (by simp) fun h => hprefix ⟨rest, h.1.symm⟩
      | cons d scheme =>
          rw [List.infix_cons_iff, not_or]
          constructor
          · intro h
            obtain ⟨parts, hsplit, hsame⟩ := Option.map_eq_some_iff.1 h
            cases hsame
            obtain ⟨rfl, hinfix⟩ := ih.1 hsplit
            refine ⟨rfl, fun hmark => hprefix (hmark.trans ?_), hinfix⟩
            exact ⟨"://".toList ++ parts.2, by rw [← List.append_assoc, List.cons_append, List.cons_append]⟩
          · rintro ⟨hl, -, hinfix⟩
            obtain ⟨rfl, htail⟩ := List.cons.inj hl
            rw [ih.2 ⟨htail, hinfix⟩]
            rfl

/-! ## Addresses -/

/-- Whatever the user and the password are, an address shows neither. -/
theorem hideCredentials_append {scheme host : String} (hscheme : ¬ "://".toList <:+: scheme.toList)
    (hhost : '@' ∉ host.toList) (user : String) :
    hideCredentials (scheme ++ "://" ++ user ++ "@" ++ host) = scheme ++ "://" ++ host := by
  have haddress : (scheme ++ "://" ++ user ++ "@" ++ host).toList =
      scheme.toList ++ "://".toList ++ (user.toList ++ '@' :: host.toList) := by
    simp
  have hsplit := splitScheme?_eq_some_iff.2 ⟨haddress, hscheme⟩
  rw [hideCredentials, hsplit]
  dsimp only
  rw [afterLastAt?_append hhost]
  simp [← String.toList_inj]

theorem hideCredentials_idem (address : String) :
    hideCredentials (hideCredentials address) = hideCredentials address := by
  cases hsplit : splitScheme? address.toList with
  | none => simp only [hideCredentials, hsplit]
  | some parts =>
      obtain ⟨scheme, rest⟩ := parts
      cases hhost : afterLastAt? rest with
      | none => simp only [hideCredentials, hsplit, hhost]
      | some host =>
          have hshown : hideCredentials address = String.ofList (scheme ++ "://".toList ++ host) := by
            simp only [hideCredentials, hsplit, hhost]
          have hagain := splitScheme?_eq_some_iff.2
            ⟨String.toList_ofList (l := scheme ++ "://".toList ++ host), (splitScheme?_eq_some_iff.1 hsplit).2⟩
          rw [hshown, hideCredentials, hagain]
          dsimp only
          rw [afterLastAt?_eq_none_iff.2 (at_not_mem_of_afterLastAt? hhost)]

/-- Credentials are hidden, whatever text they are. So addresses that differ only in them give a store the
same name, and an address that is shown has nothing left to hide. -/
theorem credentials_hidden :
    (∀ scheme user host : String, ¬ "://".toList <:+: scheme.toList → '@' ∉ host.toList →
      hideCredentials (scheme ++ "://" ++ user ++ "@" ++ host) = scheme ++ "://" ++ host ∧
      ∀ other : String, hideCredentials (scheme ++ "://" ++ other ++ "@" ++ host) =
        hideCredentials (scheme ++ "://" ++ user ++ "@" ++ host)) ∧
    ∀ address, hideCredentials (hideCredentials address) = hideCredentials address := by
  refine ⟨fun scheme user host hscheme hhost => ?_, hideCredentials_idem⟩
  have hhidden := hideCredentials_append hscheme hhost
  exact ⟨hhidden user, fun other => (hhidden other).trans (hhidden user).symm⟩

/-- A password with both marks in it, beside no credentials at all. -/
theorem credentials_hidden_marks :
    ¬ "://".toList <:+: "redis".toList ∧ '@' ∉ "cache:6379/0".toList ∧
      hideCredentials "redis://me:p@ss://word@cache:6379/0" = "redis://cache:6379/0" ∧
      hideCredentials "redis://@cache:6379/0" = "redis://cache:6379/0" := by
  have hscheme : ¬ "://".toList <:+: "redis".toList := by decide
  have hhost : '@' ∉ "cache:6379/0".toList := by decide
  obtain ⟨hmarks, hother⟩ :=
    credentials_hidden.1 "redis" "me:p@ss://word" "cache:6379/0" hscheme hhost
  exact ⟨hscheme, hhost, hmarks, (hother "").trans hmarks⟩

end Inventory.Endpoint
