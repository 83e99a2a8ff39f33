-- Damage in a database. Record objects before and after a damaged stretch of
-- text are read as if the damage were not there. A record that starts in the
-- damage can not end in the text behind it, for a reader that comes upon an
-- object never ends a record there.
import CompileCommands.Proofs.Database.Records
import CompileCommands.Proofs.Record.Containment

namespace CompileCommands.Database

open Record

/-! ## Text behind damage -/

/-- A record that is found where the damage goes over into quiet text ends
within the damage. -/
theorem closes_in_damage {damage text body more : List UInt8} {d : Draft}
    (hquiet : Reader.Quiet text) (hbody : Reader.start.Closes body d)
    (h : damage ++ text = body ++ more) : ∃ left, damage = body ++ left := by
  rcases List.append_eq_append_iff.mp h with ⟨x, hx, htext⟩ | ⟨left, hleft, -⟩
  · cases x with
    | nil => exact ⟨[], by simp [hx]⟩
    | cons b x =>
      exfalso
      rw [hx] at hbody
      obtain ⟨r, hfeed, hclose⟩ := hbody.split (by simp)
      have hsound : r.place.IsSound := Reader.feed_isSound hfeed trivial
      have hdone : r.feed text = .done d := by
        rw [htext]
        exact hclose.feed_append more
      exact hquiet r hsound d hdone
  · exact ⟨left, hleft⟩

/-- The records of damage and of the quiet text behind it are those of each on
its own. -/
theorem drafts_append {text : List UInt8} (hquiet : Reader.Quiet text) :
    ∀ damage : List UInt8, drafts (damage ++ text) = drafts damage ++ drafts text
  | [] => rfl
  | b :: damage => by
    by_cases hb : b = 0x7B
    · subst hb
      by_cases hrecord : ∃ body left d, damage = body ++ left ∧ Reader.start.Closes body d
      · -- The record is passed over as a whole, in both texts.
        obtain ⟨body, left, d, rfl, hbody⟩ := hrecord
        have hboth := drafts_record hbody (left ++ text)
        have halone := drafts_record hbody left
        have hrest := drafts_append hquiet left
        simp only [List.cons_append, List.append_assoc] at hboth halone ⊢
        rw [hboth, halone, hrest, List.cons_append]
      · have hno : ∀ more front back, (more = [] ∨ more = text) →
            0x7B :: (damage ++ more) = front ++ back → ∀ d, decode front ≠ .ok d := by
          intro more front back hmore heq d hdecode
          obtain ⟨body, gap, rfl, hbody, -⟩ := decode_ok_iff.mp hdecode
          simp only [List.cons_append, List.append_assoc, List.cons.injEq, true_and] at heq
          rcases hmore with rfl | rfl
          · exact hrecord ⟨body, gap ++ back, d, by simpa using heq, hbody⟩
          · obtain ⟨left, hleft⟩ := closes_in_damage hquiet hbody heq
            exact hrecord ⟨body, left, d, hleft, hbody⟩
        have hboth : drafts (0x7B :: (damage ++ text)) = drafts (damage ++ text) :=
          drafts_brace fun front back heq => hno text front back (.inr rfl) heq
        have halone : drafts (0x7B :: damage) = drafts damage :=
          drafts_brace fun front back heq =>
            hno [] front back (.inl rfl) (by simpa using heq)
        rw [List.cons_append, hboth, halone, drafts_append hquiet damage]
    · rw [List.cons_append, drafts_cons hb, drafts_cons hb, drafts_append hquiet damage]
termination_by damage => damage.length

/-! ## Record objects in a row -/

/-- Text without braces. -/
structure Gap where
  bytes : List UInt8
  noOpening : 0x7B ∉ bytes
  noClosing : 0x7D ∉ bytes

/-- A well-formed record object and the text before it. The object is one
record with a file, and its first key starts with a letter. -/
structure Piece where
  gap : Gap
  object : List UInt8
  draft : Draft
  isObject : IsObject object draft
  hasFile : draft.fileText ≠ ""

/-- The text of some pieces. -/
def spread (pieces : List Piece) : List UInt8 :=
  pieces.flatMap fun p => p.gap.bytes ++ p.object

theorem Piece.recordOf_isSome (fs : FileSystem) (p : Piece) :
    (recordOf fs p.draft).isSome = true := by
  unfold recordOf
  rw [if_neg p.hasFile]
  rfl

/-- The record of a piece. -/
def Piece.record (fs : FileSystem) (p : Piece) : PlainRecord :=
  (recordOf fs p.draft).get (p.recordOf_isSome fs)

theorem Gap.quiet (g : Gap) : Reader.Quiet g.bytes := Reader.quiet_of_not_mem g.noClosing

theorem Gap.drafts_eq_nil (g : Gap) : drafts g.bytes = [] := Database.drafts_eq_nil g.noClosing

theorem spread_cons (p : Piece) (pieces : List Piece) :
    spread (p :: pieces) = p.gap.bytes ++ (p.object ++ spread pieces) := by
  simp [spread]

theorem spread_quiet (pieces : List Piece) : Reader.Quiet (spread pieces) := by
  induction pieces with
  | nil => exact Reader.quiet_of_not_mem (by simp [spread])
  | cons p pieces ih =>
    rw [spread_cons]
    exact p.gap.quiet.append (p.isObject.quiet.append ih)

/-- The object of a piece is one record, whatever stands behind it. -/
theorem Piece.drafts_object (p : Piece) (text : List UInt8) :
    drafts (p.object ++ text) = p.draft :: drafts text := by
  obtain ⟨body, gap, hobject, hbody, hgap⟩ := decode_ok_iff.mp p.isObject.decodes
  have hspaces : drafts (gap ++ text) = drafts text := drafts_gap (not_mem_of_isSpace hgap rfl) text
  rw [hobject, List.append_assoc, drafts_record hbody, hspaces]

theorem drafts_spread (pieces : List Piece) (text : List UInt8) :
    drafts (spread pieces ++ text) = pieces.map Piece.draft ++ drafts text := by
  induction pieces with
  | nil => rfl
  | cons p pieces ih =>
    rw [spread_cons, List.append_assoc, drafts_gap p.gap.noOpening, List.append_assoc,
      p.drafts_object, ih, List.map_cons, List.cons_append]

theorem filterMap_recordOf (fs : FileSystem) (pieces : List Piece) :
    (pieces.map Piece.draft).filterMap (recordOf fs) = pieces.map (Piece.record fs) := by
  induction pieces with
  | nil => rfl
  | cons p pieces ih =>
    have hrecord : recordOf fs p.draft = some (p.record fs) := by simp [Piece.record]
    rw [List.map_cons, List.map_cons, List.filterMap_cons_some hrecord, ih]

/-! ## Damage between records -/

/-- Whatever stands between well-formed records, they are read as they are and
in their order. The records between them are those of the damage on its own. -/
theorem damage_contained (fs : FileSystem) (source : Path) (before after : List Piece)
    (gap tail : Gap) (damage : List UInt8) :
    (readRecords fs source
        (spread before ++ gap.bytes ++ damage ++ spread after ++ tail.bytes)).plain =
      before.map (Piece.record fs) ++ (readRecords fs source damage).plain ++
        after.map (Piece.record fs) := by
  have hquiet : Reader.Quiet (spread after ++ tail.bytes) :=
    (spread_quiet after).append tail.quiet
  have hdrafts : drafts (spread before ++ gap.bytes ++ damage ++ spread after ++ tail.bytes) =
      before.map Piece.draft ++ (drafts damage ++ after.map Piece.draft) := by
    simp only [List.append_assoc]
    rw [drafts_spread, drafts_gap gap.noOpening, drafts_append hquiet, drafts_spread,
      tail.drafts_eq_nil, List.append_nil]
  rw [readRecords_plain, readRecords_plain, hdrafts, List.filterMap_append,
    List.filterMap_append, filterMap_recordOf, filterMap_recordOf, List.append_assoc]

/-- The record of `/a.c`, at the start of a database. -/
def pieceA : Piece where
  gap := ⟨Utf8.ofText "[", by decide, by decide⟩
  object := Utf8.ofText "\x7b\"file\":\"/a.c\"\x7d"
  draft := { Draft.empty with file := some (some "/a.c") }
  isObject := ⟨by decide +kernel, "file", by decide +kernel, by decide⟩
  hasFile := by decide

/-- The record of `/p/c.c`, behind another record. -/
def pieceC : Piece where
  gap := ⟨Utf8.ofText ", ", by decide, by decide⟩
  object := Utf8.ofText "\x7b\"directory\":\"/p\", \"file\":\"c.c\"\x7d"
  draft := { Draft.empty with directory := some (some "/p"), file := some (some "c.c") }
  isObject := ⟨by decide +kernel, "directory", by decide +kernel, by decide⟩
  hasFile := by decide

/-- The two records, and between them one with a string that does not end. -/
def damagedText : List UInt8 := Utf8.ofText
  ("[\x7b\"file\":\"/a.c\"\x7d, \x7b\"file\":\"/b.c, " ++
    "\x7b\"directory\":\"/p\", \"file\":\"c.c\"\x7d]")

/-- A string without an end costs the record that it stands in, and neither of
the records around it. -/
theorem damage_contained_unendedString :
    (readRecords .empty ⟨"db"⟩ damagedText).plain =
      [⟨[], ⟨"/a.c"⟩, ⟨""⟩⟩, ⟨[], ⟨"/p/c.c"⟩, ⟨"/p"⟩⟩] := by
  let gap : Gap := ⟨Utf8.ofText ", ", by decide, by decide⟩
  let tail : Gap := ⟨Utf8.ofText "]", by decide, by decide⟩
  let damage := Utf8.ofText "\x7b\"file\":\"/b.c"
  have htext : damagedText =
      spread [pieceA] ++ gap.bytes ++ damage ++ spread [pieceC] ++ tail.bytes := by decide +kernel
  have hdamage : (readRecords .empty ⟨"db"⟩ damage).plain = [] := by decide +kernel
  rw [htext, damage_contained .empty ⟨"db"⟩ [pieceA] [pieceC] gap tail damage, hdamage]
  decide +kernel

end CompileCommands.Database
