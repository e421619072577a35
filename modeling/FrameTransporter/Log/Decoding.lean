import FrameTransporter.Formats.Rfc5424
import FrameTransporter.Log.Syslog

/-! # Records as messages of RFC 5424

In format 5 a record is printed with an element of structured data, which has the
level and the pairs of the record as its parameters. The values are printed as they
are, so a reader finds the same values only if none of them has a byte that would
have to be escaped in its place.
-/

namespace FrameTransporter

open Hoare Rfc5424

namespace Syslog

open Log

/-- The text of a record up to its element of structured data. -/
def headerText (env : Env) (le : LogRecord) : List UInt8 :=
  let tm := env.gmtime (le.timestamp.num.tdiv le.timestamp.den)
  ascii "<" ++ decimal ((env.facility <<< 3) ||| (severity le.level).1) ++ ascii ">" ++
    ascii "1 " ++ isoText tm ((le.timestamp * 1000).floor.toNat % 1000) ++ ascii " " ++
    env.domainname ++ ascii " " ++ le.appname ++ ascii " " ++ decimal le.pid ++ ascii " - "

/-- The text of a record behind its element of structured data. -/
def messageText (le : LogRecord) : List UInt8 := ascii " " ++ le.text ++ ascii "\n"

/-- The text of a record from its element on, with its structured data as text. -/
def elementText (le : LogRecord) (sd : List UInt8) : List UInt8 :=
  91 :: ascii "l@47278" ++
    (plainParams [(ascii "l", ascii (severity le.level).2)] ++ (sd ++ 93 :: messageText le))

/-- The parameters that a record stands for: its level, and its pairs. -/
def params (le : LogRecord) : List (List UInt8 × List UInt8) :=
  (ascii "l", ascii (severity le.level).2) ::
    (le.sd.getD []).map fun sd => (cString sd.name, cString sd.value)

/-- Behind the header a record is read as an element with its parameters, and its message. -/
def Decodes (env : Env) (le : LogRecord) (w : World Dgram Syslog) : Prop :=
  wp (fun _ => False) (expandSd env (separator env.format) le) (fun sd _ =>
    sdElement ((recordText env le sd).drop (headerText env le).length) =
      some (⟨ascii "l@47278", params le⟩, messageText le)) w

/-- The buffer has room for the structured data, or the room is given. -/
def HasBuffer (env : Env) (le : LogRecord) (w : World Dgram Syslog) : Prop :=
  ∀ sds, le.sd = some sds →
    2 + (sds.map sdLength).sum ≤ w.proto.sdbufSize ∨ env.realloc w.clock = true

section Decoding

variable {env : Env} {le : LogRecord} {w : World Dgram Syslog} {sd : List UInt8}

/-- The text of a record in format 5. -/
theorem recordText_eq (hm : env.format ≠ 'm') (h3 : env.format ≠ '3') :
    recordText env le sd = headerText env le ++ elementText le sd := by
  have hopen : ascii " - [l@47278 l=\"" = ascii " - " ++ 91 :: ascii "l@47278" ++
      32 :: ascii "l" ++ 61 :: 34 :: [] := by decide
  have hquote : ascii "\"" = [34] := by decide
  have hclose : ascii "] " = 93 :: ascii " " := by decide
  unfold recordText headerText elementText
  generalize severity le.level = level
  obtain ⟨n, level⟩ := level
  dsimp only
  split
  · exact absurd ‹_› hm
  · exact absurd ‹_› h3
  · simp only [messageText, plainParams, hopen, hquote, hclose, List.append_assoc,
      List.cons_append, List.nil_append, List.flatMap_cons, List.flatMap_nil]

/-- The separator stands in front of each item. -/
theorem sdText_eq (sds : List LogSd) : sdText 32 sds =
    plainParams (sds.map fun sd => (cString sd.name, cString sd.value)) := by
  have hmoved : 32 :: sds.flatMap (sdItem 32) =
      plainParams (sds.map fun sd => (cString sd.name, cString sd.value)) ++ [32] := by
    induction sds with
    | nil => rfl
    | cons sd sds ih =>
      have hitem : sdItem 32 sd =
          cString sd.name ++ 61 :: 34 :: cString sd.value ++ 34 :: [32] := by
        simp [sdItem, ascii]
      rw [List.flatMap_cons, hitem, List.map_cons, plainParams, List.flatMap_cons]
      rw [plainParams] at ih
      simp only [List.append_assoc, List.cons_append, List.nil_append, ih]
  rw [sdText, hmoved, List.dropLast_concat]

theorem sdName_id : SdName (ascii "l@47278") := by
  refine ⟨by decide, by decide, by decide⟩

theorem sdName_level : SdName (ascii "l") := by
  refine ⟨by decide, by decide, by decide⟩

theorem plain_level (level : UInt8) : Plain (ascii (severity level).2) := by
  unfold severity Plain
  split <;> decide

/-- Without a buffer the element is not read. -/
theorem not_decoded : sdElement (elementText le (ascii " NOMEM=1")) = none := by
  have hnomem : sdParam (ascii "NOMEM" ++ 61 :: 49 :: 93 :: messageText le) = none := by
    rw [sdParam, sdName_append ⟨by decide, by decide, by decide⟩ (by decide)]
    rfl
  have htext : ascii " NOMEM=1" ++ 93 :: messageText le =
      32 :: (ascii "NOMEM" ++ 61 :: 49 :: 93 :: messageText le) := by
    have hsplit : ascii " NOMEM=1" = 32 :: (ascii "NOMEM" ++ 61 :: 49 :: []) := by decide
    rw [hsplit]
    simp
  rw [elementText, htext]
  refine sdElement_stuck sdName_id ?_ hnomem
  intro p hp
  obtain rfl := List.mem_singleton.mp hp
  exact ⟨sdName_level, plain_level _⟩

/-- An element is read with the parameters of its record exactly if their values are plain. -/
theorem decoded_iff (hnames : ∀ sd ∈ le.sd.getD [], SdName (cString sd.name)) :
    sdElement (elementText le (sdText 32 (le.sd.getD []))) =
        some (⟨ascii "l@47278", params le⟩, messageText le) ↔
      ∀ sd ∈ le.sd.getD [], Plain (cString sd.value) := by
  have htext : plainParams [(ascii "l", ascii (severity le.level).2)] ++
      sdText 32 (le.sd.getD []) = plainParams (params le) := by
    rw [sdText_eq, plainParams, plainParams, ← List.flatMap_append]
    rfl
  have hparams : ∀ p ∈ params le, SdName p.1 := by
    intro p hp
    rcases List.mem_cons.mp hp with rfl | hp
    · exact sdName_level
    · obtain ⟨sd, hsd, rfl⟩ := List.mem_map.mp hp
      exact hnames sd hsd
  rw [elementText, ← List.append_assoc (plainParams _), htext, sdElement_iff sdName_id hparams,
    and_iff_left rfl]
  constructor
  · intro h sd hsd
    exact h _ (List.mem_cons_of_mem _ (List.mem_map_of_mem hsd))
  · intro h p hp
    rcases List.mem_cons.mp hp with rfl | hp
    · exact plain_level _
    · obtain ⟨sd, hsd, rfl⟩ := List.mem_map.mp hp
      exact h sd hsd

/-- Whether a record decodes is a matter of what its structured data are printed as. -/
theorem decodes_wp (hm : env.format ≠ 'm') (h3 : env.format ≠ '3') : Decodes env le w ↔
    wp (fun _ => False) (expandSd env 32 le) (fun sd _ => sdElement (elementText le sd) =
      some (⟨ascii "l@47278", params le⟩, messageText le)) w := by
  have hsep : separator env.format = 32 := if_neg hm
  simp only [Decodes, recordText_eq hm h3, List.drop_left, hsep]

/-- A record decodes if there is a buffer and its element, with all pairs as they are, is read. -/
theorem decodes_buffer (hm : env.format ≠ 'm') (h3 : env.format ≠ '3') : Decodes env le w ↔
    HasBuffer env le w ∧ sdElement (elementText le (sdText 32 (le.sd.getD []))) =
      some (⟨ascii "l@47278", params le⟩, messageText le) := by
  rw [decodes_wp hm h3, expandSd, HasBuffer]
  cases hsd : le.sd with
  | none =>
    rw [wp_pure]
    simp only [reduceCtorEq, false_implies, implies_true, true_and]
    rfl
  | some sds =>
    dsimp only
    rw [getSyslog, wp_bind, wp_bind, wp_get, wp_pure]
    by_cases hroom : w.proto.sdbufSize < 2 + (sds.map sdLength).sum
    · rw [if_pos hroom, wp_bind, wp_ask]
      by_cases hgrow : env.realloc w.clock = true
      · rw [if_pos hgrow, wp_bind, wp_modify, wp_pure, and_iff_right]
        · rfl
        · rintro _ ⟨⟩
          exact Or.inr hgrow
      · rw [if_neg hgrow, wp_pure, not_decoded]
        refine iff_of_false (by rintro ⟨⟩) ?_
        rintro ⟨hbuffer, -⟩
        exact (hbuffer sds rfl).elim (not_le.mpr hroom) hgrow
    · rw [if_neg hroom, wp_pure, and_iff_right]
      · rfl
      · rintro _ ⟨⟩
        exact Or.inl (not_lt.mp hroom)

/-- In format 5 a record is read with its own parameters and its message exactly if its values are
plain and the buffer of its structured data has room or can grow. -/
theorem decodes_iff (hm : env.format ≠ 'm') (h3 : env.format ≠ '3')
    (hnames : ∀ sd ∈ le.sd.getD [], SdName (cString sd.name)) :
    Decodes env le w ↔ HasBuffer env le w ∧ ∀ sd ∈ le.sd.getD [], Plain (cString sd.value) := by
  rw [decodes_buffer hm h3, decoded_iff hnames]

end Decoding

section Examples

/-- A record with a user. -/
def userRecord (user : String) : LogRecord where
  timestamp := 0
  pid := 1
  level := 73
  appname := ascii "app"
  sd := some [⟨ascii "user", ascii user⟩]
  message _ := 0

theorem sdName_user (user : String) :
    ∀ sd ∈ (userRecord user).sd.getD [], SdName (cString sd.name) := by
  intro sd hsd
  obtain rfl := List.mem_singleton.mp hsd
  have hname : SdName (cString (ascii "user")) := ⟨by decide, by decide, by decide⟩
  exact hname

theorem decodes_joe : Decodes offeringEnv (userRecord "joe") (started (fresh hello)) ↔
    HasBuffer offeringEnv (userRecord "joe") (started (fresh hello)) ∧
      ∀ sd ∈ (userRecord "joe").sd.getD [], Plain (cString sd.value) :=
  decodes_iff (by decide) (by decide) (sdName_user "joe")

/-- A value with a quote adds a parameter. -/
theorem not_decodes_quote : ¬∀ (env : Env) (le : LogRecord) (w : World Dgram Syslog),
    env.format = '5' → (∀ sd ∈ le.sd.getD [], SdName (cString sd.name)) → Decodes env le w := by
  intro h
  have hdecodes := h offeringEnv (userRecord "x\" admin=\"1") (started (fresh hello)) rfl
    (sdName_user _)
  rw [decodes_buffer (by decide) (by decide), decoded_iff (sdName_user _)] at hdecodes
  have hplain := hdecodes.2 _ (List.mem_singleton.mpr rfl)
  exact hplain.1 (by decide)

end Examples

end Syslog

end FrameTransporter
