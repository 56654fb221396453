import StagedLoad.Proofs.Http.Boundary
import StagedLoad.Proofs.Text.Utf8

/-!
# Forms are read as they were written

The body of a form is cut at the boundary that is announced with it, the head of each part ends
at its first empty line, and a backslash in a quoted name makes the next character stand for
itself.  What is read in this way is the form that was written: no byte of a file is taken for a
delimiter or a head, and none is lost to one.

## Main definitions

* `FilePart.Sendable`, `Form.Sendable` — the forms whose names stay on their lines, and whose
  data does not hold the boundary.
* `FormPart.ofField`, `FormPart.ofFile` — the parts that are read.

## Main results

* `unquote_escapeChars` — a name in quotes is read up to its closing quote, and as it was.
* `IsHead.ofBytes?_eq`, `isHead_fieldHead`, `isHead_fileHead` — what a part says of itself.
* `encode_reads_back` — the body is read as the fields and the files, in order.
-/

namespace StagedLoad

open FormReader

/-! ### Names in quotes -/

namespace Form

theorem mem_of_mem_escapeChars {c : Char} {cs : List Char} (h : c ∈ escapeChars cs) :
    c = '\\' ∨ c ∈ cs := by
  induction cs with
  | nil => exact absurd h List.not_mem_nil
  | cons d cs ih =>
    rw [escapeChars] at h
    split at h <;> simp only [List.mem_cons] at h ⊢ <;> tauto

theorem not_mem_escape {c : Char} (hc : c ≠ '\\') {s : String} (h : c ∉ s.toList) :
    c ∉ (escape s).toList := by
  rw [escape, String.toList_ofList]
  exact fun hm => (mem_of_mem_escapeChars hm).elim hc h

end Form

namespace FormReader

/-- A quoted text ends at the first quote that no backslash stands in front of. -/
theorem unquote_escapeChars (cs rest : List Char) :
    unquote (Form.escapeChars cs ++ '"' :: rest) = some (cs, rest) := by
  induction cs with
  | nil => rfl
  | cons c cs ih =>
    rw [Form.escapeChars]
    split
    · rw [List.cons_append, List.cons_append, unquote, ih, Option.map_some]
    · next h =>
      rw [not_or] at h
      rw [List.cons_append, unquote, ih, Option.map_some]
      · exact h.2
      · exact fun d ds hd _ => h.1 hd

/-- A parameter with its value in quotes. -/
def quoted (p : String × String) : List Char :=
  ';' :: ' ' :: (p.1.toList ++ '=' :: '"' :: ((Form.escape p.2).toList ++ ['"']))

theorem parameters_quoted {p : String × String}
    (hname : ∀ c ∈ p.1.toList, c ≠ '=' ∧ c ≠ ';' ∧ c ≠ ' ') (fuel : Nat) (rest : List Char) :
    parameters (fuel + 1) (quoted p ++ rest) = p :: parameters fuel rest := by
  obtain ⟨name, value⟩ := p
  let text := '=' :: '"' :: (Form.escapeChars value.toList ++ '"' :: rest)
  have hword : ∀ c ∈ name.toList, (c != '=' && c != ';') = true := by
    intro c hc
    simp [hname c hc]
  have hskip : (quoted (name, value) ++ rest).dropWhile (fun c => c == ';' || c == ' ') =
      name.toList ++ text := by
    have hcons : quoted (name, value) ++ rest = ';' :: ' ' :: (name.toList ++ text) := by
      simp [quoted, text, Form.escape]
    rw [hcons, List.dropWhile_cons_of_pos rfl, List.dropWhile_cons_of_pos rfl]
    cases hcs : name.toList with
    | nil => rfl
    | cons c cs =>
      have hc := hname c (hcs ▸ List.mem_cons_self)
      rw [List.cons_append, List.dropWhile_cons_of_neg (by simp [hc])]
  have hbefore : (name.toList ++ text).takeWhile (fun c => c != '=' && c != ';') =
      name.toList := by
    rw [List.takeWhile_append_of_pos hword, List.takeWhile_cons_of_neg (by decide), List.append_nil]
  have hbehind : (name.toList ++ text).dropWhile (fun c => c != '=' && c != ';') = text := by
    rw [List.dropWhile_append_of_pos hword, List.dropWhile_cons_of_neg (by decide)]
  rw [parameters]
  simp only [hskip, hbefore, hbehind, text, unquote_escapeChars, String.ofList_toList]

theorem parameters_flatMap {ps : List (String × String)}
    (hps : ∀ p ∈ ps, ∀ c ∈ p.1.toList, c ≠ '=' ∧ c ≠ ';' ∧ c ≠ ' ') {fuel : Nat}
    (hfuel : ps.length ≤ fuel) : parameters fuel (ps.flatMap quoted) = ps := by
  induction ps generalizing fuel with
  | nil => cases fuel <;> rfl
  | cons p ps ih =>
    obtain ⟨fuel, rfl⟩ := Nat.exists_eq_add_of_le' (Nat.lt_of_lt_of_le (Nat.succ_pos _) hfuel)
    have hrest := ih (fun q hq => hps q (List.mem_cons_of_mem _ hq)) (Nat.le_of_succ_le_succ hfuel)
    rw [List.flatMap_cons, parameters_quoted (hps p List.mem_cons_self), hrest]

theorem length_le_flatMap_quoted (ps : List (String × String)) :
    ps.length ≤ (ps.flatMap quoted).length := by
  induction ps with
  | nil => exact Nat.le_refl 0
  | cons p ps ih =>
    simp only [List.flatMap_cons, List.length_append, List.length_cons, quoted]
    omega

/-- What the head of a part says, with the given parameters. -/
def formData (ps : List (String × String)) : List Char := "form-data".toList ++ ps.flatMap quoted

/-- The value of a parameter is the first one that is written under its name. -/
theorem parameter?_formData {ps : List (String × String)}
    (hps : ∀ p ∈ ps, ∀ c ∈ p.1.toList, c ≠ '=' ∧ c ≠ ';' ∧ c ≠ ' ') (name : String) :
    parameter? name (formData ps) = (ps.find? fun p => p.1 == name).map Prod.snd := by
  have hskip : (formData ps).dropWhile (· != ';') = ps.flatMap quoted := by
    unfold formData
    rw [List.dropWhile_append_of_pos (by simp)]
    cases ps with
    | nil => rfl
    | cons p ps => exact List.dropWhile_cons_of_neg (by decide)
  have hlength : ps.length ≤ (formData ps).length := by
    unfold formData
    rw [List.length_append]
    exact Nat.le_trans (length_le_flatMap_quoted ps) (Nat.le_add_left _ _)
  rw [parameter?, hskip, parameters_flatMap hps hlength]

/-- Blanks stand neither in front of a text nor behind it. -/
@[mk_iff]
structure IsTrimmed (cs : List Char) : Prop where
  /-- The first character is none. -/
  first : cs.head? ≠ some ' ' ∧ cs.head? ≠ some '\t'
  /-- The last character is none. -/
  last : cs.getLast? ≠ some ' ' ∧ cs.getLast? ≠ some '\t'

instance (cs : List Char) : Decidable (IsTrimmed cs) := decidable_of_iff' _ (isTrimmed_iff cs)

theorem IsTrimmed.dropWhile_eq {cs : List Char} (h : IsTrimmed cs) :
    cs.dropWhile (fun c => c == ' ' || c == '\t') = cs := by
  cases cs with
  | nil => rfl
  | cons c cs => exact List.dropWhile_cons_of_neg (by simpa using h.first)

theorem IsTrimmed.reverse {cs : List Char} (h : IsTrimmed cs) : IsTrimmed cs.reverse where
  first := by simpa using h.last
  last := by simpa using h.first

/-- A header as it is sent. -/
def headerLine (name value : String) : Bytes := Bytes.ofString (name ++ ": " ++ value)

theorem header?_headerLine {name value : String} (hname : ':' ∉ name.toList)
    (hvalue : IsTrimmed value.toList) :
    header? (headerLine name value) = some (Header.lower name, value.toList) := by
  have htext : (name ++ ": " ++ value).toList = name.toList ++ ':' :: ' ' :: value.toList := by
    simp
  have hword : ∀ c ∈ name.toList, (c != ':') = true := by
    intro c hc
    exact bne_iff_ne.mpr fun h => hname (h ▸ hc)
  have hbefore : (name ++ ": " ++ value).toList.takeWhile (· != ':') = name.toList := by
    rw [htext, List.takeWhile_append_of_pos hword, List.takeWhile_cons_of_neg (by decide),
      List.append_nil]
  have hbehind : (name ++ ": " ++ value).toList.dropWhile (· != ':') =
      ':' :: ' ' :: value.toList := by
    rw [htext, List.dropWhile_append_of_pos hword, List.dropWhile_cons_of_neg (by decide)]
  rw [header?, headerLine, Bytes.toString?_ofString]
  simp only [Option.bind_eq_bind, Option.bind_some, hbefore, hbehind, Option.pure_def,
    String.ofList_toList]
  rw [List.dropWhile_cons_of_pos rfl, hvalue.dropWhile_eq, hvalue.reverse.dropWhile_eq,
    List.reverse_reverse]

theorem isHeadLine_headerLine {name value : String} (hname : '\r' ∉ name.toList)
    (hstart : ∃ c ∈ name.toList.head?, Bytes.Plain c ∧ c ≠ '-') (hvalue : '\r' ∉ value.toList) :
    IsHeadLine (headerLine name value) where
  unbroken h := by
    have hmem := Bytes.mem_toList_of_byte_mem (c := '\r') (by decide) h
    simp [hname, hvalue] at hmem
  start := by
    obtain ⟨c, hc, hp, hdash⟩ := hstart
    obtain ⟨cs, hcs⟩ := List.head?_eq_some_iff.mp hc
    refine ⟨UInt8.ofNat c.toNat, ?_, fun h => hdash (Bytes.eq_of_ofNat_eq hp (by decide) h)⟩
    rw [headerLine, Bytes.ofString_append, Bytes.ofString_append, Bytes.ofString_eq_flatMap name,
      hcs, Bytes.flatMap_cons_of_plain hp]
    rfl

end FormReader

/-! ### Forms that can be sent -/

/-- What no value and no file of a form may hold. -/
def Form.marker : String := "--" ++ Form.boundary

/-- A file that can stand in a form: no text in its head holds a carriage return, without which no
line ends, its type has no blanks around it, and its bytes do not hold the boundary. -/
@[mk_iff]
structure FilePart.Sendable (file : FilePart) : Prop where
  field : '\r' ∉ file.field.toList
  filename : '\r' ∉ file.filename.toList
  contentType : '\r' ∉ file.contentType.toList
  trimmed : IsTrimmed file.contentType.toList
  data : ¬ Bytes.ofString Form.marker <:+: file.data

/-- A form whose fields and files can stand in it. -/
@[mk_iff]
structure Form.Sendable (f : Form) : Prop where
  names : ∀ p ∈ f.fields, '\r' ∉ p.1.toList
  values : ∀ p ∈ f.fields, ¬ Form.marker.toList <:+: p.2.toList
  files : ∀ file ∈ f.files, file.Sendable

instance (file : FilePart) : Decidable file.Sendable :=
  decidable_of_iff' _ (FilePart.sendable_iff file)

instance (f : Form) : Decidable f.Sendable := decidable_of_iff' _ (Form.sendable_iff f)

/-! ### What a part says of itself -/

namespace FormPart

/-- The part of a text field. -/
def ofField (field : String × String) : FormPart :=
  ⟨some field.1, none, none, Bytes.ofString field.2⟩

/-- The part of a file. -/
def ofFile (file : FilePart) : FormPart :=
  ⟨some file.field, some file.filename, some file.contentType, file.data⟩

end FormPart

namespace Form

/-- What the head of a part says of a field. -/
def disposition (field : String) : String := "form-data; name=\"" ++ escape field ++ "\""

/-- What the head of a part says of a file. -/
def fileDisposition (file : FilePart) : String :=
  disposition file.field ++ "; filename=\"" ++ escape file.filename ++ "\""

theorem ofString_lineEnd : Bytes.ofString lineEnd = FormReader.lineEnd := by decide

theorem fieldHead_eq (name : String) :
    Bytes.ofString (fieldHead name) =
      headerLine "Content-Disposition" (disposition name) ++
        (continued [] ++ (FormReader.lineEnd ++ FormReader.lineEnd)) := by
  have hword : "Content-Disposition: form-data; name=\"" =
      "Content-Disposition" ++ ": " ++ "form-data; name=\"" := rfl
  unfold fieldHead headerLine disposition
  rw [hword]
  simp only [Bytes.ofString_append, ofString_lineEnd, continued, List.flatMap_nil,
    List.nil_append, List.append_assoc]

theorem fileHead_eq (file : FilePart) :
    Bytes.ofString (fileHead file) =
      headerLine "Content-Disposition" (fileDisposition file) ++
        (continued [headerLine "Content-Type" file.contentType] ++
          (FormReader.lineEnd ++ FormReader.lineEnd)) := by
  have hword : "Content-Disposition: form-data; name=\"" =
      "Content-Disposition" ++ ": " ++ "form-data; name=\"" := rfl
  have hname : "\"; filename=\"" = "\"" ++ "; filename=\"" := rfl
  have htype : "Content-Type: " = "Content-Type" ++ ": " := rfl
  unfold fileHead headerLine fileDisposition disposition
  rw [hword, hname, htype]
  simp only [Bytes.ofString_append, ofString_lineEnd, continued, List.flatMap_cons,
    List.flatMap_nil, List.append_nil, List.append_assoc]

theorem toList_disposition (field : String) :
    (disposition field).toList = formData [("name", field)] := by
  unfold disposition formData quoted
  simp

theorem toList_fileDisposition (file : FilePart) :
    (fileDisposition file).toList =
      formData [("name", file.field), ("filename", file.filename)] := by
  unfold fileDisposition
  rw [String.toList_append, String.toList_append, String.toList_append, toList_disposition]
  unfold formData quoted
  simp

end Form

namespace FormReader

variable {value : String} {ps : List (String × String)}

theorem isTrimmed_of_formData (hvalue : value.toList = formData ps) (hne : ps ≠ []) :
    IsTrimmed value.toList where
  first := by
    rw [hvalue]
    unfold formData
    simp
  last := by
    obtain ⟨qs, p, rfl⟩ : ∃ qs p, ps = qs ++ [p] :=
      ⟨_, _, (List.dropLast_concat_getLast hne).symm⟩
    have hquote : quoted p =
        ';' :: ' ' :: (p.1.toList ++ '=' :: '"' :: (Form.escape p.2).toList) ++ ['"'] := by
      simp [quoted]
    rw [hvalue]
    unfold formData
    rw [List.flatMap_append, List.flatMap_singleton, hquote, ← List.append_assoc,
      ← List.append_assoc, List.getLast?_concat]
    simp

theorem return_notMem_of_formData (hvalue : value.toList = formData ps)
    (hps : ∀ p ∈ ps, '\r' ∉ p.1.toList ∧ '\r' ∉ p.2.toList) : '\r' ∉ value.toList := by
  intro h
  unfold formData at hvalue
  rw [hvalue, List.mem_append, List.mem_flatMap] at h
  rcases h with h | ⟨p, hp, h⟩
  · exact absurd h (by decide)
  · have hescape := Form.not_mem_escape (by decide) (hps p hp).2
    simp [quoted, hps p hp, hescape] at h

theorem isHeadLine_disposition (hvalue : value.toList = formData ps)
    (hps : ∀ p ∈ ps, '\r' ∉ p.1.toList ∧ '\r' ∉ p.2.toList) :
    IsHeadLine (headerLine "Content-Disposition" value) :=
  isHeadLine_headerLine (by decide) ⟨'C', by decide, by decide, by decide⟩
    (return_notMem_of_formData hvalue hps)

theorem isHeadLine_contentType (hvalue : '\r' ∉ value.toList) :
    IsHeadLine (headerLine "Content-Type" value) :=
  isHeadLine_headerLine (by decide) ⟨'C', by decide, by decide, by decide⟩ hvalue

theorem header?_disposition (hvalue : value.toList = formData ps) (hne : ps ≠ []) :
    header? (headerLine "Content-Disposition" value) =
      some ("content-disposition", formData ps) := by
  rw [header?_headerLine (by decide) (isTrimmed_of_formData hvalue hne), hvalue]
  rfl

theorem header?_contentType (hvalue : IsTrimmed value.toList) :
    header? (headerLine "Content-Type" value) = some ("content-type", value.toList) := by
  rw [header?_headerLine (by decide) hvalue]
  rfl

/-- The bytes of a head that says what the headers are, up to and with its empty line. -/
def IsHead (head : Bytes) (headers : List (String × List Char)) : Prop :=
  ∃ l ls, IsHeadLine l ∧ (∀ m ∈ ls, IsHeadLine m) ∧ (l :: ls).mapM header? = some headers ∧
    head = l ++ (continued ls ++ (lineEnd ++ lineEnd))

variable {head : Bytes} {headers : List (String × List Char)}

/-- A part holds no delimiter if its data does not hold what follows the line end of one. -/
theorem IsHead.no_delimiter (h : IsHead head headers) {boundary data : Bytes}
    (hdata : ¬ dashes ++ boundary <:+: data) : ¬ delimiter boundary <:+: head ++ data := by
  obtain ⟨l, ls, hl, hls, -, rfl⟩ := h
  rw [List.append_assoc, List.append_assoc]
  exact delimiter_not_infix_part hl hls hdata

/-- The value of a header. -/
def headerValue (headers : List (String × List Char)) (name : String) : Option (List Char) :=
  (headers.find? fun h => h.1 == name).map Prod.snd

/-- A part is read by what its headers say; what follows its empty line is what it holds. -/
theorem IsHead.ofBytes?_eq (h : IsHead head headers) (data : Bytes) :
    FormPart.ofBytes? (head ++ data) = some
      { name := parameter? "name" ((headerValue headers "content-disposition").getD [])
        filename := parameter? "filename" ((headerValue headers "content-disposition").getD [])
        contentType := (headerValue headers "content-type").map String.ofList
        data } := by
  obtain ⟨l, ls, hl, hls, hheaders, rfl⟩ := h
  rw [FormPart.ofBytes?, List.append_assoc, List.append_assoc, cut?_head hl hls]
  simp only [Option.bind_eq_bind, Option.bind_some, lines_head hl hls, hheaders]
  rfl

end FormReader

namespace Form

theorem isHead_fieldHead {name : String} (hname : '\r' ∉ name.toList) :
    IsHead (Bytes.ofString (fieldHead name))
      [("content-disposition", formData [("name", name)])] := by
  have hvalue := toList_disposition name
  refine ⟨_, [], isHeadLine_disposition hvalue (by simpa using hname), ?_, ?_, fieldHead_eq name⟩
  · exact fun _ h => absurd h List.not_mem_nil
  · rw [List.mapM_cons, header?_disposition hvalue (List.cons_ne_nil _ _)]
    rfl

theorem isHead_fileHead {file : FilePart} (h : file.Sendable) :
    IsHead (Bytes.ofString (fileHead file))
      [("content-disposition", formData [("name", file.field), ("filename", file.filename)]),
        ("content-type", file.contentType.toList)] := by
  have hvalue := toList_fileDisposition file
  have hline := isHeadLine_disposition hvalue (by simpa using ⟨h.field, h.filename⟩)
  refine ⟨_, [headerLine "Content-Type" file.contentType], hline, ?_, ?_, fileHead_eq file⟩
  · simpa using isHeadLine_contentType h.contentType
  · rw [List.mapM_cons, header?_disposition hvalue (List.cons_ne_nil _ _), List.mapM_cons,
      header?_contentType h.trimmed]
    rfl

end Form

/-! ### Whole forms -/

namespace Form

/-- The bytes of a part between two delimiters. -/
def sectionOf (p : String × Bytes) : Bytes := Bytes.ofString p.1 ++ p.2

/-- The boundary in bytes. -/
def boundaryBytes : Bytes := Bytes.ofString boundary

theorem plain_marker : ∀ c ∈ marker.toList, Bytes.Plain c :=
  List.forall_iff_forall_mem.mp (by decide)

theorem ofString_marker : Bytes.ofString marker = dashes ++ boundaryBytes := by decide

theorem return_notMem_boundaryBytes : 13 ∉ boundaryBytes := by decide

theorem encode_eq (f : Form) :
    f.encode = dashes ++ boundaryBytes ++
      (joined boundaryBytes (f.parts.map sectionOf) ++ (dashes ++ FormReader.lineEnd)) := by
  have hopening : Bytes.ofString opening = dashes ++ boundaryBytes ++ FormReader.lineEnd := by
    decide
  have hclosing : Bytes.ofString closing =
      dashes ++ boundaryBytes ++ (dashes ++ FormReader.lineEnd) := by
    decide
  unfold encode
  rw [hclosing]
  induction f.parts with
  | nil => rfl
  | cons p ps ih =>
    rw [List.flatMap_cons, List.append_assoc, ih, List.map_cons, joined_cons]
    simp only [part, hopening, ofString_lineEnd, sectionOf, delimiter, List.append_assoc]

theorem delimiter_not_infix_section {f : Form} (hf : f.Sendable) :
    ∀ s ∈ f.parts.map sectionOf, ¬ delimiter boundaryBytes <:+: s := by
  intro s hs
  obtain ⟨p, hp, rfl⟩ := List.mem_map.mp hs
  rw [parts, List.mem_append, List.mem_map, List.mem_map] at hp
  rcases hp with ⟨field, hfield, rfl⟩ | ⟨file, hfile, rfl⟩
  · refine (isHead_fieldHead (hf.names field hfield)).no_delimiter ?_
    rw [← ofString_marker]
    exact fun h => hf.values field hfield (Bytes.infix_of_encoded plain_marker h)
  · refine (isHead_fileHead (hf.files file hfile)).no_delimiter ?_
    rw [← ofString_marker]
    exact (hf.files file hfile).data

theorem ofBytes?_field {field : String × String} (hname : '\r' ∉ field.1.toList) :
    FormPart.ofBytes? (sectionOf (fieldHead field.1, Bytes.ofString field.2)) =
      some (FormPart.ofField field) := by
  have hparameter : ∀ n, parameter? n (formData [("name", field.1)]) =
      ([("name", field.1)].find? fun p => p.1 == n).map Prod.snd :=
    parameter?_formData (by simp)
  rw [sectionOf, (isHead_fieldHead hname).ofBytes?_eq]
  simp [headerValue, hparameter, FormPart.ofField]

theorem ofBytes?_file {file : FilePart} (h : file.Sendable) :
    FormPart.ofBytes? (sectionOf (fileHead file, file.data)) = some (FormPart.ofFile file) := by
  have hparameter : ∀ n, parameter? n
      (formData [("name", file.field), ("filename", file.filename)]) =
        ([("name", file.field), ("filename", file.filename)].find? fun p => p.1 == n).map
          Prod.snd :=
    parameter?_formData (by simp)
  rw [sectionOf, (isHead_fileHead h).ofBytes?_eq]
  simp [headerValue, hparameter, FormPart.ofFile]

private theorem mapM_map_eq_some {α β γ : Type} {g : β → Option γ} {s : α → β} {t : α → γ}
    {l : List α} (h : ∀ x ∈ l, g (s x) = some (t x)) : (l.map s).mapM g = some (l.map t) := by
  induction l with
  | nil => rfl
  | cons x l ih =>
    rw [List.map_cons, List.mapM_cons, h x List.mem_cons_self,
      ih fun y hy => h y (List.mem_cons_of_mem _ hy)]
    rfl

theorem mapM_ofBytes? {f : Form} (hf : f.Sendable) :
    (f.parts.map sectionOf).mapM FormPart.ofBytes? =
      some (f.fields.map FormPart.ofField ++ f.files.map FormPart.ofFile) := by
  have hfields : ((f.fields.map fun p => (fieldHead p.1, Bytes.ofString p.2)).map
      sectionOf).mapM FormPart.ofBytes? = some (f.fields.map FormPart.ofField) := by
    rw [List.map_map]
    refine mapM_map_eq_some fun p hp => ?_
    exact ofBytes?_field (hf.names p hp)
  have hfiles : ((f.files.map fun file => (fileHead file, file.data)).map
      sectionOf).mapM FormPart.ofBytes? = some (f.files.map FormPart.ofFile) := by
    rw [List.map_map]
    refine mapM_map_eq_some fun file hfile => ?_
    exact ofBytes?_file (hf.files file hfile)
  unfold parts
  rw [List.map_append, List.mapM_append, hfields, hfiles]
  rfl

theorem parts?_encode {f : Form} (hf : f.Sendable) :
    parts? boundaryBytes f.encode =
      some (f.fields.map FormPart.ofField ++ f.files.map FormPart.ofFile) := by
  have hfirst := cut?_append_self (p := dashes ++ boundaryBytes) (by decide)
    (joined boundaryBytes (f.parts.map sectionOf) ++ (dashes ++ FormReader.lineEnd))
  have hsections := sections?_joined return_notMem_boundaryBytes
    (delimiter_not_infix_section hf) FormReader.lineEnd
  rw [parts?, encode_eq, hfirst]
  simp only [Option.bind_eq_bind, Option.bind_some, hsections, mapM_ofBytes? hf]

/-- Parts with a file name are files, and the others are text fields. -/
theorem ofParts?_map (f : Form) :
    ofParts? (f.fields.map FormPart.ofField ++ f.files.map FormPart.ofFile) = some f := by
  have hfields : (f.fields.map FormPart.ofField ++ f.files.map FormPart.ofFile).filter
      (fun p => p.filename.isNone) = f.fields.map FormPart.ofField := by
    simp [List.filter_append, List.filter_map, FormPart.ofField, FormPart.ofFile,
      Function.comp_def]
  have hfiles : (f.fields.map FormPart.ofField ++ f.files.map FormPart.ofFile).filter
      (fun p => p.filename.isSome) = f.files.map FormPart.ofFile := by
    simp [List.filter_append, List.filter_map, FormPart.ofField, FormPart.ofFile,
      Function.comp_def]
  have hnames : (f.fields.map FormPart.ofField).mapM (fun p => do
      let name ← p.name
      let value ← p.data.toString?
      return (name, value)) = some (f.fields.map id) :=
    mapM_map_eq_some fun p _ => by simp [FormPart.ofField]
  have hdata : (f.files.map FormPart.ofFile).mapM (fun p => do
      let field ← p.name
      let filename ← p.filename
      let contentType ← p.contentType
      return { field, filename, contentType, data := p.data : FilePart }) =
        some (f.files.map id) :=
    mapM_map_eq_some fun file _ => rfl
  rw [ofParts?, hfields, hfiles, hnames, hdata, List.map_id, List.map_id]
  rfl

/-- What is read of a body, under the boundary that its announcement names, is the form: the
fields in order and then the files in order, each as it was.  So no two of these forms have the
same body. -/
theorem encode_reads_back {f : Form} (hf : f.Sendable) :
    FormReader.boundary? contentType = some boundary ∧
      parts? (Bytes.ofString boundary) f.encode =
        some (f.fields.map FormPart.ofField ++ f.files.map FormPart.ofFile) ∧
      decode? contentType f.encode = some f ∧
      ∀ g : Form, g.Sendable → g.encode = f.encode → g = f := by
  have hboundary : FormReader.boundary? contentType = some boundary := by decide
  have hdecode : ∀ g : Form, g.Sendable → decode? contentType g.encode = some g := by
    intro g hg
    rw [decode?, hboundary]
    simp only [Option.bind_eq_bind, Option.bind_some]
    rw [← boundaryBytes, parts?_encode hg]
    exact ofParts?_map g
  refine ⟨hboundary, parts?_encode hf, hdecode f hf, fun g hg heq => ?_⟩
  have hsame := hdecode g hg
  rw [heq, hdecode f hf] at hsame
  exact (Option.some.inj hsame).symm

/-- A form with all that could be taken for something else: quotes and backslashes at the ends of
names, the boundary in a name, nameless and repeated parts, a value that looks like a head, and
files that end within a delimiter. -/
def awkward : Form where
  fields := [("a\"b\\", "\r\n--"), (marker, "\r\n\r\nContent-Type: x\r\n"), ("", ""), ("", "")]
  files := [
    { field := "\\", filename := "\"; name=\"x\\", contentType := "text/plain; a=\": \"",
      data := Bytes.ofString "\r\n------rampr-multipart-boundary-7MA4YWxkTrZu0g" ++ [13] },
    { field := "", filename := "", contentType := "", data := [255, 13, 10] }]

theorem awkward_reads_back : awkward.Sendable ∧
    parts? (Bytes.ofString boundary) awkward.encode =
      some (awkward.fields.map FormPart.ofField ++ awkward.files.map FormPart.ofFile) ∧
    decode? contentType awkward.encode = some awkward := by
  have h : awkward.Sendable := by decide
  obtain ⟨-, hparts, hform, -⟩ := encode_reads_back h
  exact ⟨h, hparts, hform⟩

end Form

end StagedLoad
