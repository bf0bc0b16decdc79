import GroupedTables.Proofs.Alter.PrimaryKey
import GroupedTables.Proofs.Text.Digits
import Mathlib.Data.Finset.Card
import Mathlib.Data.Finset.Image
import Mathlib.Order.Interval.Finset.Nat

/-!
# Made-up names

A name made up for a constraint is the start of a text, or a shorter start of it with the first
number behind it that makes it a name nobody has. Whatever the text is and however much of it is cut
off, two numbers never make one name, because the number can be read off the end. So among one name
more than there are names taken one is free, and the search for it ends there at the latest.
-/

namespace GroupedTables

open GroupedTables.Action

namespace IndexNames

variable {n : IndexNames} {base name : String} {number : Nat} {key : KeyEdit} {keys : List KeyEdit}

def numberSuffix (number : Nat) : List Char := '_' :: Text.digits number

/-- The number can be read off a numbered name, whatever the name is. -/
theorem digits_of_append (front : List Char) (number : Nat) :
    ((front ++ numberSuffix number).reverse.takeWhile Char.isDigit).reverse =
      Text.digits number := by
  have digits : ∀ c ∈ (Text.digits number).reverse, c.isDigit = true :=
    fun c inside => Text.isDigit_digits (List.mem_reverse.1 inside)
  have split : (front ++ numberSuffix number).reverse =
      (Text.digits number).reverse ++ '_' :: front.reverse := by simp [numberSuffix]
  have ended : ('_' :: front.reverse).takeWhile Char.isDigit = [] :=
    List.takeWhile_cons_of_neg (by decide)
  rw [split, List.takeWhile_append_of_pos digits, ended, List.append_nil, List.reverse_reverse]

theorem toList_numbered (n : IndexNames) (base : String) (number : Nat) :
    (n.numbered base number).toList =
      (n.cut base (numberSuffix number).length).toList ++ numberSuffix number := by
  simp [numbered, numberSuffix]

/-- Two numbers never make one name. -/
theorem numbered_injective (n : IndexNames) (base : String) :
    Function.Injective (n.numbered base) := by
  intro a b same
  have same : Text.digits a = Text.digits b := by
    rw [← digits_of_append (n.cut base (numberSuffix a).length).toList a, ← toList_numbered,
      same, toList_numbered, digits_of_append]
  rw [← Text.digitsValue_digits a, same, Text.digitsValue_digits]

theorem length_cut_le (n : IndexNames) (name : String) (room : Nat) :
    (n.cut name room).length ≤ max (n.limit - room) 1 := by
  rw [cut, String.length_ofList]
  exact List.length_take_le ..

/-- A numbered name keeps to the limit if that has room for the number and one character. -/
theorem length_numbered_le (n : IndexNames) (base : String) (number : Nat)
    (room : 1 + (numberSuffix number).length ≤ n.limit) :
    (n.numbered base number).length ≤ n.limit := by
  have cut := n.length_cut_le base (numberSuffix number).length
  have whole := congrArg List.length (n.toList_numbered base number)
  rw [List.length_append, String.length_toList, String.length_toList] at whole
  omega

/-- A number is the first from two on that makes a name nobody has. -/
structure FirstFree (n : IndexNames) (base : String) (number : Nat) : Prop where
  from_two : 2 ≤ number
  free : n.numbered base number ∉ n.taken
  least : ∀ k, 2 ≤ k → k < number → n.numbered base k ∈ n.taken

/-- There is such a number, and one more than there are names taken do not all fail. -/
theorem exists_firstFree (n : IndexNames) (base : String) :
    ∃ number, n.FirstFree base number ∧ number ≤ n.taken.toFinset.card + 2 := by
  let numbers := Finset.Icc 2 (n.taken.toFinset.card + 2)
  have more : n.taken.toFinset.card < (numbers.image (n.numbered base)).card := by
    rw [Finset.card_image_of_injective _ (n.numbered_injective base), Nat.card_Icc]
    omega
  obtain ⟨_, made, free⟩ := Finset.exists_mem_notMem_of_card_lt_card more
  obtain ⟨last, inside, rfl⟩ := Finset.mem_image.1 made
  rw [List.mem_toFinset] at free
  obtain ⟨from_two, bound⟩ := Finset.mem_Icc.1 inside
  have some_free : ∃ k, 2 ≤ k ∧ n.numbered base k ∉ n.taken := ⟨last, from_two, free⟩
  refine ⟨Nat.find some_free, ?_, (Nat.find_min' some_free ⟨from_two, free⟩).trans bound⟩
  refine ⟨(Nat.find_spec some_free).1, (Nat.find_spec some_free).2, fun k from_two before => ?_⟩
  exact not_not.1 fun free => Nat.find_min some_free before ⟨from_two, free⟩

/-- Going through the numbers in order stops at the first one. -/
theorem FirstFree.find?_eq (h : n.FirstFree base number)
    (bound : number ≤ n.taken.length + 2) :
    ((List.range (n.taken.length + 1)).map fun i => n.numbered base (i + 2)).find?
      (fun candidate => !n.taken.contains candidate) = some (n.numbered base number) := by
  have from_two := h.from_two
  have first : (List.range (n.taken.length + 1)).find?
      ((fun candidate => !n.taken.contains candidate) ∘ fun i => n.numbered base (i + 2)) =
      some (number - 2) := by
    rw [List.find?_range_eq_some]
    have back : number - 2 + 2 = number := by omega
    refine ⟨?_, ?_, fun k before => ?_⟩
    · simpa [back] using h.free
    · rw [List.mem_range]; omega
    · simpa using h.least (k + 2) (by omega) (by omega)
  rw [List.find?_map, first, Option.map_some, Nat.sub_add_cancel from_two]

/-- A made-up name is what a text starts with, if that may be used, and else the first numbered name
that is free. -/
theorem unused_eq (n : IndexNames) (text : String) :
    (n.cut text 0 ∉ n.taken ∧ n.cut text 0 ≠ Index.primaryName ∧ n.unused text = n.cut text 0) ∨
      (n.cut text 0 ∈ n.taken ∨ n.cut text 0 = Index.primaryName) ∧
        ∃ number, n.FirstFree (n.cut text 0) number ∧ number ≤ n.taken.toFinset.card + 2 ∧
          n.unused text = n.numbered (n.cut text 0) number := by
  unfold unused
  dsimp only
  split
  case isTrue usable =>
    rw [Bool.and_eq_true, bne_iff_ne, Bool.not_eq_true', List.contains_eq_mem,
      decide_eq_false_iff_not] at usable
    exact .inl ⟨usable.1, usable.2, rfl⟩
  case isFalse unusable =>
    rw [Bool.and_eq_true, bne_iff_ne, Bool.not_eq_true', List.contains_eq_mem,
      decide_eq_false_iff_not, not_and_or, not_not, not_not] at unusable
    obtain ⟨number, first, bound⟩ := n.exists_firstFree (n.cut text 0)
    refine .inr ⟨unusable, number, first, bound, ?_⟩
    rw [first.find?_eq (bound.trans (Nat.add_le_add_right (List.toFinset_card_le _) 2)),
      Option.getD_some]

theorem unused_not_mem (n : IndexNames) (text : String) : n.unused text ∉ n.taken := by
  obtain ⟨free, _, same⟩ | ⟨_, number, first, _, same⟩ := n.unused_eq text
  · exact same ▸ free
  · exact same ▸ first.free

/-- The name of the index for a key, and what is taken then. -/
def nameKey (n : IndexNames) : KeyEdit → String × IndexNames
  | .primary _ => n.primary
  | .unique asked columns => n.name asked columns

/-- The names of the indexes for keys in turn, and what is taken then. -/
def nameKeys (n : IndexNames) : List KeyEdit → List String × IndexNames
  | [] => ([], n)
  | key :: rest =>
    let (name, n) := n.nameKey key
    let (names, n) := n.nameKeys rest
    (name :: names, n)

theorem nameKey_eq (n : IndexNames) (key : KeyEdit) : n.nameKey key = n.take (n.nameKey key).1 := by
  cases key <;> rfl

/-- Every name that was given is taken, with those that were taken before. -/
theorem taken_nameKeys (n : IndexNames) (keys : List KeyEdit) :
    (n.nameKeys keys).2.taken = (n.nameKeys keys).1.reverse ++ n.taken := by
  induction keys generalizing n with
  | nil => rfl
  | cons key rest ih =>
    rw [nameKeys]
    dsimp only
    rw [ih, nameKey_eq]
    simp [take]

theorem limit_nameKeys (n : IndexNames) (keys : List KeyEdit) :
    (n.nameKeys keys).2.limit = n.limit := by
  induction keys generalizing n with
  | nil => rfl
  | cons key rest ih =>
    rw [nameKeys]
    dsimp only
    rw [ih, nameKey_eq]
    rfl

/-- A name that was asked for is given. -/
theorem mem_nameKeys_of_asked {asked : String} {columns : List String}
    (inside : .unique (some asked) columns ∈ keys) : asked ∈ (n.nameKeys keys).1 := by
  induction keys generalizing n with
  | nil => cases inside
  | cons key rest ih =>
    obtain rfl | inside := List.mem_cons.1 inside
    · exact List.mem_cons_self
    · exact List.mem_cons_of_mem _ (ih inside)

/-- A key is added under the name it gets, and listed under that. -/
theorem wp_addKey_names (n : IndexNames) (id : TableId) (changes : List Change) (key : KeyEdit)
    (c : Catalog) : WP (Draft.addKey id n changes key)
      (fun added _ => added = ((n.nameKey key).2, changes ++ [.add (n.nameKey key).1]))
      (fun _ _ => True) c := by
  have added (index : Index) {post : Unit → Catalog → Prop} (always : ∀ c, post () c) :
      WP (Catalog.addIndex id index) post (fun _ _ => True) c := by
    unfold WP
    cases Catalog.addIndex id index c with
    | ok => exact always _
    | error => exact trivial
  cases key with
  | primary columns => exact (wp_bind _ _).2 (added _ fun _ => rfl)
  | unique asked columns => exact (wp_bind _ _).2 (added _ fun _ => rfl)

/-- The keys of a statement are added and listed under the names they get in turn. -/
theorem wp_addKeys_names (n : IndexNames) (id : TableId) (changes : List Change)
    (keys : List KeyEdit) (c : Catalog) :
    WP (keys.foldlM (fun (added : IndexNames × List Change) key =>
        Draft.addKey id added.1 added.2 key) (n, changes))
      (fun added _ => added = ((n.nameKeys keys).2, changes ++ (n.nameKeys keys).1.map .add))
      (fun _ _ => True) c := by
  induction keys generalizing n changes c with
  | nil => exact Prod.ext rfl (List.append_nil changes).symm
  | cons key rest ih =>
    rw [List.foldlM_cons, wp_bind]
    refine (n.wp_addKey_names id changes key c).mono_post ?_
    rintro _ c rfl
    refine (ih _ _ c).mono_post ?_
    rintro _ _ rfl
    simp [nameKeys]

/-- However many names were given on a table before, a name made up for a constraint is not that of
the primary key, of an index of the table or one that was given or asked for. It is the text it is
made from, cut to the limit, if that will do. Else it is the first numbered name that is free, which
comes at the latest with two more than there are names taken, and keeps to the limit if there is
room for the number and one character. -/
theorem name_of_unnamed (t : Table) (limit : Nat) (keys : List KeyEdit) (columns : List String) :
    let (given, names) := (ofTable t limit).nameKeys keys
    let name := (names.name none columns).1
    let base := names.cut (columns.headD nameless) 0
    (name ≠ Index.primaryName ∧ (∀ i ∈ t.indexes, name ≠ i.name) ∧ name ∉ given ∧
      ∀ asked columns, .unique (some asked) columns ∈ keys → name ≠ asked) ∧
    (name = base ∧ (1 ≤ limit → name.length ≤ limit) ∨
      (base ∈ names.taken ∨ base = Index.primaryName) ∧ ∃ number, names.FirstFree base number ∧
        number ≤ names.taken.toFinset.card + 2 ∧ name = names.numbered base number ∧
        (1 + (numberSuffix number).length ≤ limit → name.length ≤ limit)) := by
  have taken := taken_nameKeys (ofTable t limit) keys
  have limited : ((ofTable t limit).nameKeys keys).2.limit = max limit 1 :=
    limit_nameKeys (ofTable t limit) keys
  cases ran : (ofTable t limit).nameKeys keys with
  | mk given names =>
    rw [ran] at taken limited
    dsimp only at taken limited ⊢
    have fresh : (names.name none columns).1 ∉ names.taken := names.unused_not_mem _
    rw [taken, List.mem_append, List.mem_reverse, not_or] at fresh
    refine ⟨⟨names.unused_ne_primaryName _, fun i inside same => fresh.2 ?_, fresh.1, ?_⟩, ?_⟩
    · exact same ▸ List.mem_map_of_mem inside
    · rintro asked columns' inside same
      have listed : asked ∈ ((ofTable t limit).nameKeys keys).1 := mem_nameKeys_of_asked inside
      rw [ran] at listed
      exact fresh.1 (same ▸ listed)
    · obtain ⟨_, _, same⟩ | ⟨unusable, number, first, bound, same⟩ :=
        names.unused_eq (columns.headD nameless)
      · refine .inl ⟨same, fun some => ?_⟩
        have short := names.length_cut_le (columns.headD nameless) 0
        have same : (names.name none columns).1 = names.cut (columns.headD nameless) 0 := same
        rw [same]
        omega
      · refine .inr ⟨unusable, number, first, bound, same, fun room => ?_⟩
        have short := names.length_numbered_le (names.cut (columns.headD nameless) 0) number
          (by omega)
        have same : (names.name none columns).1 = _ := same
        rw [same]
        omega

/-- The third constraint on a column whose name and the first number with it are taken. -/
example :
    let t : Table := { id := 1, name := ⟨"shop", "order"⟩, indexes := [.ofColumns "numb_2" []] }
    let keys := [.unique none ["number"], .unique (some "by_date") ["date"],
      .unique none ["number"]]
    ((ofTable t 6).nameKeys keys).1 = ["number", "by_date", "numb_3"] := by decide +kernel

end IndexNames

end GroupedTables
