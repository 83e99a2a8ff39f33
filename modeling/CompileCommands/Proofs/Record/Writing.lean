-- Records that are written are read back. A written record is fed to the
-- reader piece by piece: a string ends where its closing quote stands, for no
-- other quote in it is without a backslash.
import CompileCommands.Proofs.Json.Writing
import CompileCommands.Proofs.Record.Reading

namespace CompileCommands.Record

open Json Utf8

/-! ## Written records -/

/-- What a record says of a file, before it is written. -/
structure Written where
  directory : String
  file : String
  arguments : List String
  deriving DecidableEq, Repr

namespace Written

/-- The list of the arguments, as it is written. -/
def argumentsText (w : Written) : String :=
  "[" ++ ",".intercalate (w.arguments.map quoted) ++ "]"

/-- A member of a record, as it is written. -/
def memberText (field : Field) (value : String) : String := quoted field.key ++ ":" ++ value

/-- The members in the order of their keys. -/
def membersText (w : Written) : String :=
  ",".intercalate [memberText .arguments w.argumentsText,
    memberText .directory (quoted w.directory), memberText .file (quoted w.file)]

/-- The record, as it is written. -/
def text (w : Written) : String := "\x7b" ++ w.membersText ++ "\x7d"

/-- The fields that are read. -/
def draft (w : Written) : Draft :=
  ⟨some (some w.directory), some (some w.file), some (some w.arguments), none⟩

end Written

namespace Reader

theorem feed_more_append {r r' : Reader} {xs : List UInt8} (h : r.feed xs = .more r')
    (ys : List UInt8) : r.feed (xs ++ ys) = r'.feed ys := by
  rw [feed_append, h]

theorem feed_singleton {r r' : Reader} {b : UInt8} (h : r.step b = .more r') :
    r.feed [b] = .more r' := by
  simp [feed, h]

theorem closes_append {r r' : Reader} {front back : List UInt8} {d : Draft}
    (h : r.feed front = .more r') (hback : r'.Closes back d) : r.Closes (front ++ back) d := by
  induction front generalizing r with
  | nil =>
    cases h
    exact hback
  | cons b front ih =>
    simp only [feed] at h
    split at h
    · exact .more ‹_› (ih h)
    · cases h
    · cases h

/-! ## Strings -/

section Strings

variable (inText : TextReader → Reader) (closed : String → Step)
  (hstep : ∀ t b, (inText t).step b = textStep t b (fun t => .more (inText t)) closed)

include hstep

theorem feed_read {t t' : TextReader} {bytes : List UInt8} (h : t.read? bytes = some t') :
    (inText t).feed bytes = .more (inText t') := by
  induction bytes generalizing t with
  | nil =>
    cases h
    rfl
  | cons b bytes ih =>
    simp only [TextReader.read?] at h
    split at h
    · rename_i next hnext
      have hmore : (inText t).step b = .more (inText next) := by simp [hstep, textStep, hnext]
      simp only [feed, hmore]
      exact ih h
    · cases h

/-- A written string is read from its opening to its closing quote. -/
theorem feed_quoted {r r' : Reader} {s : String} (hopen : r.step 0x22 = .more (inText .start))
    (hclosed : closed s = .more r') : r.feed (ofText (quoted s)) = .more r' := by
  have hbytes : ofText (quoted s) = [0x22] ++ (encode (s.toList.flatMap escape) ++ [0x22]) := by
    unfold quoted
    rw [ofText_append, ofText_append, ofText_ofList (s.toList.flatMap escape), List.append_assoc]
    rfl
  have hread := feed_read inText closed hstep (read?_flatMap [] s.toList)
  have hquote : (inText ⟨.plain, (encode s.toList).reverse ++ []⟩).step 0x22 = .more r' := by
    simp [hstep, textStep, TextReader.step, decodeText_encode, hclosed]
  rw [hbytes, feed_more_append (feed_singleton hopen)]
  exact (feed_more_append hread [0x22]).trans (feed_singleton hquote)

end Strings

/-! ## Members -/

section Members

variable {d : Draft}

theorem feed_key {place : Place} {field : Field} (hplace : place = .firstKey ∨ place = .nextKey)
    (hnew : d.has field = false) :
    feed ⟨place, d⟩ (ofText (quoted field.key)) = .more ⟨.colon (some field), d⟩ := by
  have hfield : Field.ofKey? field.key = some field := by cases field <;> rfl
  have hread : keyRead ⟨.key .start, d⟩ field.key = .more ⟨.colon (some field), d⟩ := by
    simp [keyRead, hfield, hnew, goto]
  refine feed_quoted (fun t => ⟨.key t, d⟩) _ (fun _ _ => rfl) ?_ hread
  rcases hplace with rfl | rfl <;> rfl

theorem feed_member {place : Place} {field : Field} {value : String} {r : Reader}
    (hplace : place = .firstKey ∨ place = .nextKey) (hnew : d.has field = false)
    (hvalue : feed ⟨.value field, d⟩ (ofText value) = .more r) :
    feed ⟨place, d⟩ (ofText (Written.memberText field value)) = .more r := by
  have hcolon : feed ⟨.colon (some field), d⟩ (ofText ":") = .more ⟨.value field, d⟩ := rfl
  unfold Written.memberText
  rw [ofText_append, ofText_append, List.append_assoc, feed_more_append (feed_key hplace hnew),
    feed_more_append hcolon, hvalue]

theorem feed_textValue (field : Field) (hfield : field ≠ .arguments) (s : String) :
    feed ⟨.value field, d⟩ (ofText (quoted s)) = .more ⟨.afterMember, d.setText s field⟩ := by
  refine feed_quoted (fun t => ⟨.text field t, d⟩) (fun s => close (d.setText s field))
    (fun _ _ => rfl) ?_ rfl
  cases field
  case arguments => exact absurd rfl hfield
  all_goals rfl

/-! ## The list of arguments -/

theorem feed_item {items : List String} {r : Reader} {s : String}
    (hopen : r.step 0x22 = .more ⟨.item items .start, d⟩) :
    r.feed (ofText (quoted s)) = .more ⟨.afterItem (s :: items), d⟩ :=
  feed_quoted (fun t => ⟨.item items t, d⟩) (fun s => .more ⟨.afterItem (s :: items), d⟩)
    (fun _ _ => rfl) hopen rfl

theorem feed_items (items : List String) {r : Reader} (s : String) (rest : List String)
    (hopen : r.step 0x22 = .more ⟨.item items .start, d⟩) :
    r.feed (ofText (",".intercalate ((s :: rest).map quoted))) =
      .more ⟨.afterItem ((s :: rest).reverse ++ items), d⟩ := by
  induction rest generalizing items r s with
  | nil =>
    have hsingle : ",".intercalate ([s].map quoted) = quoted s := by simp
    rw [hsingle]
    exact feed_item hopen
  | cons t rest ih =>
    have hfirst := feed_item (s := s) hopen
    have hcomma : feed ⟨.afterItem (s :: items), d⟩ (ofText ",") =
        .more ⟨.nextItem (s :: items), d⟩ := rfl
    have hrest := ih (s :: items) (r := ⟨.nextItem (s :: items), d⟩) t rfl
    simp only [List.map_cons, String.intercalate_cons_cons, ofText_append, List.append_assoc]
      at hrest ⊢
    rw [feed_more_append hfirst, feed_more_append hcomma, hrest]
    simp

theorem feed_arguments (w : Written) : feed ⟨.value .arguments, d⟩ (ofText w.argumentsText) =
    .more ⟨.afterMember, d.setArguments w.arguments⟩ := by
  have hopen : feed ⟨.value .arguments, d⟩ (ofText "[") = .more ⟨.firstItem, d⟩ := rfl
  unfold Written.argumentsText
  rw [ofText_append, ofText_append, List.append_assoc, feed_more_append hopen]
  cases w.arguments with
  | nil => rfl
  | cons s rest =>
    have hitems := feed_items (d := d) [] (r := ⟨.firstItem, d⟩) s rest rfl
    have hclose : feed ⟨.afterItem ((s :: rest).reverse ++ []), d⟩ (ofText "]") =
        .more ⟨.afterMember, d.setArguments ((s :: rest).reverse ++ []).reverse⟩ := rfl
    rw [feed_more_append hitems, hclose]
    simp

end Members

/-! ## The record -/

theorem feed_members (w : Written) :
    start.feed (ofText w.membersText) = .more ⟨.afterMember, w.draft⟩ := by
  have hcomma : ∀ d, feed ⟨.afterMember, d⟩ (ofText ",") = .more ⟨.nextKey, d⟩ := fun _ => rfl
  have harguments := feed_member (d := .empty) (.inl rfl) rfl (feed_arguments w)
  have hdirectory := feed_member (d := Draft.empty.setArguments w.arguments) (.inr rfl) rfl
    (feed_textValue .directory nofun w.directory)
  have hfile := feed_member (d := (Draft.empty.setArguments w.arguments).setText w.directory
    .directory) (.inr rfl) rfl (feed_textValue .file nofun w.file)
  unfold Written.membersText
  simp only [String.intercalate_cons_cons, String.intercalate_singleton, ofText_append,
    List.append_assoc]
  rw [start, feed_more_append harguments, feed_more_append (hcomma _),
    feed_more_append hdirectory, feed_more_append (hcomma _), hfile]
  rfl

/-- A written record closes where it ends. -/
theorem closes_written (w : Written) : start.Closes (ofText w.membersText ++ [0x7D]) w.draft :=
  closes_append (feed_members w) (.last rfl)

end Reader

end CompileCommands.Record
