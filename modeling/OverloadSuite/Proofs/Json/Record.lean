import OverloadSuite.Json.Record
import OverloadSuite.Proofs.Json.Bytes
import OverloadSuite.Proofs.Json.PrintedText

/-!
# Records that are written and read

A record is written as its fields that are there, under their names. When the names differ, each
field is found again, present or absent. A codec is a way to write values and to read them that
loses nothing, and the codecs of the fields make up the codec of a record.
-/

namespace OverloadSuite.Json

variable {α : Type} {name other : String} {names : List String} {value : Option Json}
  {values : List (Option Json)}

/-! ## Fields -/

/-- The members of a record: the fields that are there, in the order of their names. -/
def present : List String → List (Option Json) → List (Option String × Json)
  | name :: names, some value :: values => member name value :: present names values
  | _ :: names, none :: values => present names values
  | _, _ => []

theorem present_cons : present (name :: names) (value :: values) =
    (value.map (member name)).toList ++ present names values := by
  cases value <;> rfl

theorem filter_present_of_notMem (h : name ∉ names) :
    (present names values).filter (fun m => m.1 == some name) = [] := by
  induction names generalizing values with
  | nil => rfl
  | cons other names ih =>
    obtain ⟨hne, hrest⟩ := List.ne_and_not_mem_of_not_mem_cons h
    cases values with
    | nil => rfl
    | cons value values =>
      rw [present_cons, List.filter_append, ih hrest]
      cases value <;> simp [member, Ne.symm hne]

theorem field?_present_self (h : name ∉ names) :
    field? (present (name :: names) (value :: values)) name = some value := by
  rw [field?, present_cons, List.filter_append, filter_present_of_notMem h]
  cases value <;> simp [member]

theorem field?_present_of_ne (h : name ≠ other) :
    field? (present (name :: names) (value :: values)) other =
      field? (present names values) other := by
  rw [field?, present_cons, List.filter_append]
  cases value <;> simp [member, field?, h]

/-- Whatever finds each field among the members finds all of them. -/
theorem mapM_present {find? : String → Option (Option Json)} (hnames : names.Nodup)
    (hlength : names.length = values.length)
    (hfind : ∀ name ∈ names, find? name = field? (present names values) name) :
    names.mapM find? = some values := by
  induction names generalizing values with
  | nil =>
    obtain rfl := List.length_eq_zero_iff.mp hlength.symm
    rfl
  | cons name names ih =>
    obtain ⟨hname, hnames⟩ := List.nodup_cons.mp hnames
    cases values with
    | nil => cases hlength
    | cons value values =>
      have hself : find? name = some value := by
        rw [hfind name List.mem_cons_self, field?_present_self hname]
      have hrest : names.mapM find? = some values := by
        refine ih hnames (Nat.succ.inj hlength) fun other hother => ?_
        have hne : name ≠ other := fun heq => hname (heq ▸ hother)
        rw [hfind other (List.mem_cons_of_mem _ hother), field?_present_of_ne hne]
      simp [hself, hrest]

theorem isSome_of_mem_present {m : Option String × Json} (h : m ∈ present names values) :
    m.1.isSome = true := by
  fun_induction present names values with
  | case1 name names value values ih =>
    rcases List.mem_cons.mp h with rfl | h
    · rfl
    · exact ih h
  | case2 name names values ih => exact ih h
  | case3 => cases h

theorem mem_of_mem_present {m : Option String × Json} (h : m ∈ present names values) :
    some m.2 ∈ values := by
  fun_induction present names values with
  | case1 name names value values ih =>
    rcases List.mem_cons.mp h with rfl | h
    · exact List.mem_cons_self
    · exact List.mem_cons_of_mem _ (ih h)
  | case2 name names values ih => exact List.mem_cons_of_mem _ (ih h)
  | case3 => cases h

/-- **The fields of a record are found again.** -/
theorem fields?_present (hnames : names.Nodup) (hlength : names.length = values.length)
    (least : Nat) : fields? names least (.object (present names values)) = some values := by
  have hsome : (present names values).all (·.1.isSome) = true :=
    List.all_eq_true.mpr fun _ hm => isSome_of_mem_present hm
  rw [fields?, if_pos hsome]
  exact mapM_present hnames hlength fun _ _ => rfl

theorem textual_present (h : ∀ field ∈ values, ∀ value ∈ field, value.Textual) :
    Textual (.object (present names values)) :=
  .object (fun _ hm => isSome_of_mem_present hm) fun _ hm => h _ (mem_of_mem_present hm) _ rfl

/-! ## Codecs -/

/-- A way to read values and to write them. What is written is determined by its text, and is read
as the value that was written. -/
structure Codec (α : Type) where
  read? : Json → Option α
  write : α → Json
  textual : ∀ a, (write a).Textual
  read?_write : ∀ a, read? (write a) = some a

namespace Codec

/-- Texts, as strings. -/
def text : Codec String where
  read? := text?
  write := ofString
  textual := Textual.string
  read?_write _ := rfl

/-- Words of 32 bits, as natural numbers. -/
def word32 : Codec UInt32 where
  read? := word32?
  write n := .natural n.toNat
  textual n := .natural n.toNat
  read?_write n := by
    rw [word32?, if_pos n.toNat_lt_size, UInt32.ofNat_toNat]

/-- Words of 64 bits, as natural numbers. -/
def word64 : Codec UInt64 where
  read? := word64?
  write n := .natural n.toNat
  textual n := .natural n.toNat
  read?_write n := by
    rw [word64?, if_pos n.toNat_lt_size, UInt64.ofNat_toNat]

/-- The codec of lists, as arrays. -/
def list (c : Codec α) : Codec (List α) where
  read? := list? c.read?
  write as := .array (as.map c.write)
  textual as := by
    refine .array fun item hitem => ?_
    obtain ⟨a, -, rfl⟩ := List.mem_map.mp hitem
    exact c.textual a
  read?_write as := by
    rw [list?, List.mapM_map]
    induction as with
    | nil => rfl
    | cons a as ih => simp [c.read?_write, ih]

variable (c : Codec α) (as : List α)

/-- The field of a list, which is left out if the list is empty. -/
def unlessEmpty : Option Json := if as.isEmpty then none else some (c.list.write as)

theorem defaulted?_unlessEmpty : defaulted? [] (list? c.read?) (c.unlessEmpty as) = some as := by
  cases as with
  | nil => rfl
  | cons a as => exact c.list.read?_write (a :: as)

/-- What is written of a field that must be there. -/
theorem textual_of_mem_write (a : α) : ∀ value ∈ some (c.write a), value.Textual := by
  rintro value ⟨⟩
  exact c.textual a

theorem textual_of_mem_unlessEmpty : ∀ value ∈ c.unlessEmpty as, value.Textual := by
  cases as with
  | nil => rintro value ⟨⟩
  | cons a as => exact c.list.textual_of_mem_write (a :: as)

end Codec

@[simp] theorem required?_text (s : String) : required? text? (some (ofString s)) = some s := rfl

@[simp] theorem optional?_text (s : Option String) : optional? text? (s.map ofString) = some s := by
  cases s <;> rfl

theorem textual_of_mem_text (s : Option String) : ∀ value ∈ s.map ofString, value.Textual := by
  cases s with
  | none => rintro value ⟨⟩
  | some s => exact Codec.text.textual_of_mem_write s

/-! ## Texts -/

/-- The value that a text holds. -/
def decode? (read? : Json → Option α) (text : String) : Option α := parse? text >>= read?

/-- The text of a value. -/
def encode (write : α → Json) (a : α) : String := (write a).compact

/-- Values survive being written to a text and read again, also from the bytes of the text, and a
text that was read and written is the same text after being read and written once more. -/
structure Survives (read? : Json → Option α) (write : α → Json) : Prop where
  decode_encode : ∀ a, decode? read? (encode write a) = some a
  decode_bytes : ∀ a, (parseBytes? (encode write a).toUTF8 >>= read?) = some a
  decode_recoded : ∀ text a, decode? read? text = some a →
    decode? read? (encode write a) = decode? read? text
  encode_recoded : ∀ text a, decode? read? text = some a →
    (decode? read? (encode write a)).map (encode write) = some (encode write a)

theorem Codec.survives (c : Codec α) : Survives c.read? c.write := by
  have hdecode : ∀ a, decode? c.read? (encode c.write a) = some a := by
    intro a
    rw [decode?, encode, parse?_compact (c.textual a)]
    exact c.read?_write a
  exact {
    decode_encode := hdecode
    decode_bytes := fun a => by
      rw [parseBytes?_toUTF8]
      exact hdecode a
    decode_recoded := fun text a h => by rw [hdecode, h]
    encode_recoded := fun text a _ => by rw [hdecode, Option.map_some] }

end OverloadSuite.Json
