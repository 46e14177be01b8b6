/-!
# Bytes of a text

A character takes up to four bytes. `dropBytes?` drops so many bytes of a text, and answers `none`
if that would cut a character in two, or if the text has not as many.

**Statements.** `dropBytes? n cs = some rest` holds exactly if `cs` is `rest` after a text of `n`
bytes (`dropBytes?_eq_some_iff`). Two beginnings of a text that have the same number of bytes are
the same, and so is what follows them (`eq_of_append_eq`).
-/

namespace ModuleGraph.Text

/-- The number of bytes. -/
def byteSize : List Char → Nat
  | [] => 0
  | c :: cs => c.utf8Size + byteSize cs

/-- What follows the first bytes. -/
def dropBytes? : Nat → List Char → Option (List Char)
  | 0, cs => some cs
  | _ + 1, [] => none
  | n + 1, c :: cs => if c.utf8Size ≤ n + 1 then dropBytes? (n + 1 - c.utf8Size) cs else none

@[simp]
theorem byteSize_nil : byteSize [] = 0 := rfl

@[simp]
theorem byteSize_cons (c : Char) (cs : List Char) :
    byteSize (c :: cs) = c.utf8Size + byteSize cs := rfl

@[simp]
theorem byteSize_append (as bs : List Char) : byteSize (as ++ bs) = byteSize as + byteSize bs := by
  induction as with
  | nil => rw [List.nil_append, byteSize_nil, Nat.zero_add]
  | cons c as ih => rw [List.cons_append, byteSize_cons, byteSize_cons, ih, Nat.add_assoc]

theorem utf8ByteSize_eq (text : String) : text.utf8ByteSize = byteSize text.toList := by
  have hlist (cs : List Char) : (String.ofList cs).utf8ByteSize = byteSize cs := by
    induction cs with
    | nil => rfl
    | cons c cs ih =>
      rw [byteSize_cons, ← ih, ← String.utf8ByteSize_singleton, ← String.utf8ByteSize_append]
      congr 1
      apply String.toList_injective
      simp
  rw [← hlist, String.ofList_toList]

theorem dropBytes?_cons_of_pos {n : Nat} (h : 0 < n) (c : Char) (cs : List Char) :
    dropBytes? n (c :: cs) = if c.utf8Size ≤ n then dropBytes? (n - c.utf8Size) cs else none := by
  cases n with
  | zero => cases h
  | succ n => rfl

theorem dropBytes?_eq_some_iff {n : Nat} {cs rest : List Char} :
    dropBytes? n cs = some rest ↔ ∃ start, cs = start ++ rest ∧ byteSize start = n := by
  constructor
  · intro h
    induction cs generalizing n with
    | nil =>
      cases n with
      | zero =>
        cases h
        exact ⟨[], rfl, rfl⟩
      | succ n => cases h
    | cons c cs ih =>
      cases n with
      | zero =>
        cases h
        exact ⟨[], rfl, rfl⟩
      | succ n =>
        rw [dropBytes?] at h
        split at h
        · rename_i hfits
          obtain ⟨start, rfl, hsize⟩ := ih h
          refine ⟨c :: start, rfl, ?_⟩
          rw [byteSize_cons]
          omega
        · cases h
  · rintro ⟨start, rfl, rfl⟩
    induction start with
    | nil => rw [byteSize_nil, List.nil_append, dropBytes?]
    | cons c start ih =>
      have hpos := c.utf8Size_pos
      rw [byteSize_cons, List.cons_append, dropBytes?_cons_of_pos (by omega), if_pos (by omega),
        Nat.add_sub_cancel_left, ih]

/-- A text is dropped by its own number of bytes. -/
theorem dropBytes?_append (start rest : List Char) :
    dropBytes? (byteSize start) (start ++ rest) = some rest :=
  dropBytes?_eq_some_iff.2 ⟨start, rfl, rfl⟩

/-- Of two beginnings of a text, the one with as many bytes as the other is the same. -/
theorem eq_of_append_eq {as bs cs ds : List Char} (h : as ++ bs = cs ++ ds)
    (hsize : byteSize as = byteSize cs) : as = cs ∧ bs = ds := by
  have hdrop := dropBytes?_append as bs
  rw [h, hsize, dropBytes?_append] at hdrop
  obtain rfl := Option.some.inj hdrop
  exact ⟨List.append_cancel_right h, rfl⟩

end ModuleGraph.Text

namespace ModuleGraph

/-- The text from a byte on, unless the byte lies within a character or beyond the end. -/
def fromByte? (text : String) (n : Nat) : Option String :=
  (Text.dropBytes? n text.toList).map .ofList

end ModuleGraph
