import DBVault.ProductExperience.Warehouse

/-! The lines of `COPY … CSV` output: `splitCSVLine` reads a line of fields as they were written. -/
namespace DBVault.ProductExperience.Warehouse
open List Text

/-- How the text of a field is written: as it is, or quoted with the marks in it doubled. -/
inductive CsvWritten : List Char → List Char → Prop where
  | raw {text : List Char} (hPlain : ',' ∉ text ∧ '"' ∉ text) : CsvWritten text text
  | quoted (text : List Char) :
      CsvWritten text ('"' :: (text.flatMap (fun c => if c = '"' then ['"', '"'] else [c]) ++ ['"']))

/-- The commas with an even number of marks before them, counting from `inQuote`. -/
def commasOutside : Bool → List Char → Nat
  | _, [] => 0
  | inQuote, c :: rest => (if c = ',' ∧ inQuote = false then 1 else 0) + commasOutside (inQuote ^^ c == '"') rest

variable {inQuote : Bool} {c : Char} {cur rest text field : List Char}

theorem splitFields_other (hQuote : c ≠ '"') (hComma : c ≠ ',' ∨ inQuote = true) :
    splitFields inQuote cur (c :: rest) = splitFields inQuote (cur ++ [c]) rest := by
  rw [splitFields]
  · rw [if_neg hQuote, if_neg (by rcases hComma with hComma | rfl <;> simp_all)]
  · intro rest _ hSame
    exact absurd hSame hQuote

theorem splitFields_close (hEnd : '"' ∉ rest.head?) :
    splitFields true cur ('"' :: rest) = splitFields false cur rest := by
  rw [splitFields]
  · rfl
  · intro others _ _ hRest
    exact hEnd (by simp [hRest])

theorem splitFields_plain (hPlain : ',' ∉ text ∧ '"' ∉ text) (cur : List Char) :
    splitFields false cur (text ++ rest) = splitFields false (cur ++ text) rest := by
  induction text generalizing cur with
  | nil => simp
  | cons c text ih =>
    rw [cons_append, splitFields_other (by simp_all [eq_comm]) (.inl (by simp_all [eq_comm])), ih (by simp_all)]
    simp

theorem splitFields_doubled (hEnd : '"' ∉ rest.head?) (cur : List Char) :
    splitFields true cur (text.flatMap (fun c => if c = '"' then ['"', '"'] else [c]) ++ '"' :: rest) =
      splitFields false (cur ++ text) rest := by
  induction text generalizing cur with
  | nil => simpa using splitFields_close hEnd
  | cons c text ih =>
    rw [flatMap_cons, append_assoc]
    split_ifs with hQuote
    · rw [cons_append, cons_append, nil_append, splitFields, ih, hQuote]
      simp
    · rw [singleton_append, splitFields_other hQuote (.inr rfl), ih]
      simp

theorem CsvWritten.splitFields (hWritten : CsvWritten text field) (hRest : ∀ c ∈ rest.head?, c = ',') :
    splitFields false [] (field ++ rest) = splitFields false text rest := by
  cases hWritten with
  | raw hPlain => rw [splitFields_plain hPlain, nil_append]
  | quoted =>
    have hEnd : '"' ∉ rest.head? := fun hIn => absurd (hRest _ hIn) (by decide)
    have hOpen : ∀ line, Warehouse.splitFields false [] ('"' :: line) = Warehouse.splitFields true [] line := by
      intro line
      rw [Warehouse.splitFields] <;> simp
    rw [cons_append, hOpen, append_assoc, singleton_append, splitFields_doubled hEnd, nil_append]

theorem splitFields_intercalate {texts fields : List (List Char)} (hSome : texts ≠ [])
    (hWritten : Forall₂ CsvWritten texts fields) :
    splitFields false [] ([','].intercalate fields) = texts.map String.ofList := by
  induction hWritten with
  | nil => exact absurd rfl hSome
  | @cons text field texts fields hField hWritten ih =>
    cases hWritten with
    | nil =>
      have hLast : splitFields false [] (field ++ []) = _ := hField.splitFields (by simp)
      rw [append_nil] at hLast
      simp [hLast, splitFields]
    | @cons next other fields texts hNext hWritten =>
      rw [intercalate_cons_cons, append_assoc, singleton_append, hField.splitFields (by simp)]
      rw [splitFields, ih (by simp)]
      · rfl
      · simp

theorem length_splitFields (line : List Char) :
    (splitFields inQuote cur line).length = commasOutside inQuote line + 1 := by
  fun_induction splitFields inQuote cur line with
  | case1 => rfl
  | case2 cur rest ih => simpa [commasOutside] using ih
  | case3 inQuote cur rest hPair ih => simpa [commasOutside] using ih
  | case4 inQuote cur rest hPair ih =>
    simp_all [commasOutside]
    omega
  | case5 inQuote cur c rest hPair hQuote hComma ih =>
    simpa [commasOutside, hComma, beq_false_of_ne hQuote] using ih

/-- Whatever way each field of a line was written, splitting gives back their texts, and any line has one
field more than commas outside of quotes. -/
theorem splitCSVLine_inverts :
    (∀ (texts : List String) (fields : List (List Char)), texts ≠ [] →
      Forall₂ CsvWritten (texts.map String.toList) fields →
      splitCSVLine (String.ofList ([','].intercalate fields)) = texts) ∧
    ∀ line, (splitCSVLine line).length = commasOutside false line.toList + 1 := by
  refine ⟨?_, fun line => length_splitFields line.toList⟩
  intro texts fields hSome hWritten
  rw [splitCSVLine, String.toList_ofList, splitFields_intercalate (by simpa using hSome) hWritten, map_map]
  simp [Function.comp_def]

theorem splitCSVLine_two_fields : splitCSVLine "a,\"b,\"\"\"" = ["a", "b,\""] :=
  splitCSVLine_inverts.1 ["a", "b,\""] [['a'], "\"b,\"\"\"".toList] (by simp)
    (.cons (.raw (by decide)) (.cons (.quoted "b,\"".toList) .nil))

end DBVault.ProductExperience.Warehouse
