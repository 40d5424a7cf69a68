import Mathlib.Data.List.TakeWhile
import Mathlib.Data.String.Basic
import ObjectShape.Files.Basic
import ObjectShape.Proofs.Path.Plain

/-!
# Names in paths

Going down from a directory appends names to the path's own, so the order of paths below one
directory is the order of the names that lead to them, and different names make different paths.
-/

namespace ObjectShape.FilePath

set_option autoImplicit false

/-- What an entry of a directory can be called. -/
structure IsName (name : String) : Prop where
  named : name ∉ ["", ".", ".."]
  whole : '/' ∉ name.toList

instance (name : String) : Decidable (IsName name) :=
  decidable_of_iff (name ∉ ["", ".", ".."] ∧ '/' ∉ name.toList)
    ⟨fun both => ⟨both.1, both.2⟩, fun valid => ⟨valid.named, valid.whole⟩⟩

theorem IsName.to_list_ne_nil {name : String} (valid : IsName name) : name.toList ≠ [] := by
  intro empty
  exact valid.named (by simp [String.toList_eq_nil_iff.mp empty])

section Descent

/-- The names of a path without the empty one behind a slash at its end. -/
def stem (directory : String) : List String :=
  if directory.isEmpty then []
  else if directory.toList.getLast? == some '/' then
    names (String.ofList directory.toList.dropLast)
  else names directory

theorem names_of_whole {name : String} (whole : '/' ∉ name.toList) : names name = [name] := by
  rw [names, Text.cut, List.splitOn_eq_singleton whole, List.map_singleton,
    String.ofList_toList]

theorem names_append_slash (front back : String) :
    names (front ++ "/" ++ back) = names front ++ names back := by
  have chars : (front ++ "/" ++ back).toList = front.toList ++ '/' :: back.toList := by
    simp [String.toList_append]
  simp only [names, Text.cut, chars, List.splitOn_append_cons_self, List.map_append]

theorem eq_append_slash {directory : String} (ends : directory.toList.getLast? == some '/') :
    directory = String.ofList directory.toList.dropLast ++ "/" := by
  apply String.toList_inj.mp
  have last : '/' ∈ directory.toList.getLast? := by simpa using ends
  simpa [String.toList_append] using (List.dropLast_append_getLast? '/' last).symm

theorem names_child (directory : String) {name : String} (valid : IsName name) :
    names (child directory name) = stem directory ++ [name] := by
  unfold child stem
  by_cases empty : directory.isEmpty
  · have nothing : directory = "" := String.isEmpty_iff.mp empty
    simp [nothing, names_of_whole valid.whole]
  by_cases ends : directory.toList.getLast? == some '/'
  · rw [if_pos (by simp [ends]), if_neg empty, if_pos ends]
    conv => lhs; rw [eq_append_slash ends]
    rw [names_append_slash, names_of_whole valid.whole]
  · rw [if_neg (by simp [empty, ends]), if_neg empty, if_neg ends, names_append_slash,
      names_of_whole valid.whole]

theorem names_eq_stem (directory : String) :
    names directory = stem directory ∨ names directory = stem directory ++ [""] := by
  have nothing : names "" = [""] := names_of_whole (by simp)
  unfold stem
  by_cases empty : directory.isEmpty
  · right
    rw [if_pos empty, String.isEmpty_iff.mp empty, nothing, List.nil_append]
  by_cases ends : directory.toList.getLast? == some '/'
  · right
    rw [if_neg empty, if_pos ends, ← nothing, ← names_append_slash, String.append_empty,
      ← eq_append_slash ends]
  · left
    rw [if_neg empty, if_neg ends]

theorem child_ends (directory name : String) :
    ∃ front, (child directory name).toList = front ++ name.toList := by
  unfold child
  split
  · exact ⟨directory.toList, String.toList_append⟩
  · exact ⟨(directory ++ "/").toList, String.toList_append⟩

theorem child_ne_empty (directory : String) {name : String} (valid : IsName name) :
    child directory name ≠ "" := by
  intro empty
  obtain ⟨front, chars⟩ := child_ends directory name
  rw [empty] at chars
  exact valid.to_list_ne_nil (List.append_eq_nil_iff.mp chars.symm).2

/-- A name has no slash at its end. -/
theorem stem_child (directory : String) {name : String} (valid : IsName name) :
    stem (child directory name) = names (child directory name) := by
  have nonempty := valid.to_list_ne_nil
  have last : (child directory name).toList.getLast? = some (name.toList.getLast nonempty) := by
    obtain ⟨front, chars⟩ := child_ends directory name
    rw [chars, List.getLast?_append_of_ne_nil _ nonempty,
      List.getLast?_eq_getLast_of_ne_nil nonempty]
  have unslashed : name.toList.getLast nonempty ≠ '/' := by
    intro slash
    exact valid.whole (slash ▸ List.getLast_mem nonempty)
  rw [stem, if_neg (by simpa [String.isEmpty_iff] using child_ne_empty directory valid),
    if_neg (by simp [last, unslashed])]

theorem names_descend (directory : String) {below : List String} (going : below ≠ [])
    (valid : ∀ name ∈ below, IsName name) :
    names (descend directory below) = stem directory ++ below := by
  induction below generalizing directory with
  | nil => exact absurd rfl going
  | cons name rest ih =>
      have here : IsName name := valid name List.mem_cons_self
      show names (descend (child directory name) rest) = stem directory ++ name :: rest
      by_cases last : rest = []
      · subst last
        exact names_child directory here
      · rw [ih (child directory name) last fun other member =>
            valid other (List.mem_cons_of_mem name member),
          stem_child directory here, names_child directory here, List.append_assoc,
          List.singleton_append]

end Descent

section Order

theorem no_later_iff (left right : List String) : noLater left right = true ↔ left ≤ right := by
  rw [← not_lt]
  induction left generalizing right with
  | nil => simp only [noLater, List.not_lt_nil, not_false_eq_true]
  | cons name rest ih =>
      cases right with
      | nil => simp only [noLater, Bool.false_eq_true, List.nil_lt_cons, not_true_eq_false]
      | cons other others =>
          rw [List.cons_lt_cons_iff]
          by_cases same : name = other
          · simp only [noLater, same, if_true, lt_self_iff_false, true_and, false_or, ih]
          · simp only [noLater, if_neg same, Ne.symm same, false_and, or_false, decide_eq_true_eq,
              not_lt]
            exact ⟨le_of_lt, fun upTo => lt_of_le_of_ne upTo same⟩

end Order

section Extension

/-- Looked at from its end, a text parts at its last dot. -/
theorem part_at_dot {ending : List Char} (undotted : '.' ∉ ending) (front : List Char) :
    (ending ++ '.' :: front).takeWhile (· != '.') = ending ∧
      (ending ++ '.' :: front).dropWhile (· != '.') = '.' :: front := by
  have passes : ∀ c ∈ ending, (c != '.') = true := by
    intro c member
    simpa using fun dot : c = '.' => undotted (dot ▸ member)
  rw [List.takeWhile_append_of_pos passes, List.dropWhile_append_of_pos passes,
    List.takeWhile_cons_of_neg (by simp), List.dropWhile_cons_of_neg (by simp), List.append_nil]
  exact ⟨rfl, rfl⟩

theorem eq_of_parted {chars front : List Char} {dot : Char}
    (parted : chars.dropWhile (· != '.') = dot :: front) :
    chars = chars.takeWhile (· != '.') ++ '.' :: front := by
  have fails := List.head?_dropWhile_not (· != '.') chars
  obtain rfl : dot = '.' := by simpa [parted] using fails
  rw [← parted, List.takeWhile_append_dropWhile]

/-- The extension of a name is what follows its last dot, if anything stands before that dot. -/
theorem extension_eq_some_iff (name extension : String) :
    extension? name = some extension ↔
      name ≠ ".." ∧ '.' ∉ extension.toList ∧
        ∃ front, front ≠ "" ∧ name = front ++ "." ++ extension := by
  constructor
  · intro found
    match parted : name.toList.reverse.dropWhile (· != '.') with
    | [] | [_] => simp only [extension?, parted, reduceCtorEq] at found
    | dot :: before :: rest =>
        simp only [extension?, parted, Option.ite_none_left_eq_some, Option.some.injEq] at found
        obtain ⟨plain, rfl⟩ := found
        refine ⟨plain, ?_, String.ofList (before :: rest).reverse, by simp, ?_⟩
        · intro member
          rw [String.toList_ofList, List.mem_reverse] at member
          simpa using List.mem_takeWhile_imp member
        · apply String.toList_inj.mp
          rw [← List.reverse_inj]
          refine (eq_of_parted parted).trans ?_
          simp [String.toList_append]
  · rintro ⟨plain, undotted, front, filled, rfl⟩
    have nonempty : front.toList.reverse ≠ [] := by simpa using filled
    obtain ⟨before, rest, shape⟩ := List.exists_cons_of_ne_nil nonempty
    have reversed : (front ++ "." ++ extension).toList.reverse =
        extension.toList.reverse ++ '.' :: before :: rest := by
      simp [String.toList_append, ← shape]
    obtain ⟨ending, parted⟩ :=
      part_at_dot (fun dot => undotted (List.mem_reverse.mp dot)) (before :: rest)
    simp only [extension?, reversed, ending, parted]
    rw [if_neg plain, List.reverse_reverse, String.ofList_toList]

end Extension

end ObjectShape.FilePath
