import CodeSnippets.Proofs.SourceReading
import CodeSnippets.Proofs.Utf8Decoding
import CodeSnippets.Proofs.Writing

/-!
# Reading files

Whatever is at a path, reading it gives the snippet of a text or an error that is reported; only a null character in the
path is a fault. The text is that of the file, whatever ends its lines.

* `unifyLineEnds_joined`: lines do not depend on what ends them.
* `HoldsText`: a file from which a text may be read.
* `readSnippet_eq_ok_iff`, `readSnippet_ne_fault`: when there is a snippet, and that there is an error otherwise.
* `readSnippet_reads`: what reading a file comes to.
* `not_forall_readSnippet`: the permission that it depends on.
-/

namespace CodeSnippets

open Text

namespace Text

/-! ### Line ends -/

/-- What may end the lines of a file. -/
def IsLineEnd (t : Text) : Prop := t = ['\n'] ∨ t = ['\r', '\n'] ∨ t = ['\r']

/-- Characters before the first carriage return are kept. -/
theorem unifyLineEnds_append {s : Text} (h : '\r' ∉ s) (t : Text) : unifyLineEnds (s ++ t) = s ++ unifyLineEnds t := by
  induction s with
  | nil => rfl
  | cons c s ih =>
    rw [List.mem_cons, not_or] at h
    rw [List.cons_append, unifyLineEnds, ih h.2, List.cons_append]
    · exact fun _ hc _ => h.1 hc.symm
    · exact fun hc => h.1 hc.symm

/-- A line end becomes a line feed. A carriage return alone must not be taken together with what follows. -/
theorem unifyLineEnds_lineEnd {separator : Text} (h : IsLineEnd separator) {t : Text}
    (ht : separator = ['\r'] → '\n' ∉ t) : unifyLineEnds (separator ++ t) = '\n' :: unifyLineEnds t := by
  rcases h with rfl | rfl | rfl
  · exact unifyLineEnds_append (s := ['\n']) (by decide) t
  · rfl
  · have hnewline := ht rfl
    cases t with
    | nil => rfl
    | cons c t =>
      rw [List.singleton_append, unifyLineEnds]
      rintro _ ⟨⟩
      exact hnewline List.mem_cons_self

/-- Lines do not depend on what ends them. -/
theorem unifyLineEnds_joined {separator : Text} (h : IsLineEnd separator) {ls : List Text}
    (hls : ∀ l ∈ ls, '\r' ∉ l ∧ '\n' ∉ l) : unifyLineEnds (joined separator ls) = ofLines ls := by
  induction ls with
  | nil => rfl
  | cons l ls ih =>
    obtain ⟨hl, hls⟩ := List.forall_mem_cons.1 hls
    cases ls with
    | nil => exact unifyLineEnds_eq_self hl.1
    | cons k ls =>
      have hrest : separator = ['\r'] → '\n' ∉ joined separator (k :: ls) := by
        rintro rfl hmem
        rcases mem_joined hmem with hmem | ⟨t, ht, hmem⟩
        · exact absurd hmem (by decide)
        · exact (hls t ht).2 hmem
      rw [joined_cons_cons, List.append_assoc, unifyLineEnds_append hl.1, unifyLineEnds_lineEnd h hrest, ih hls]
      exact (List.append_assoc l ['\n'] (ofLines (k :: ls))).symm

end Text

theorem SourceError.ofAccess_ne_fault {e : AccessError} {f : Fault} (h : e.isSystem = true) :
    ofAccess e ≠ .fault f := by
  cases e with
  | fault f' => cases f' <;> simp_all [AccessError.isSystem, ofAccess]
  | _ => simp [ofAccess]

namespace Machine

variable {m : Machine} {p : Path} {n : Node} {d : Draft} {settings : Settings} {maxSize : Int} {s : Snippet} {t : Text}
  {f : Fault}

/-! ### When there is a snippet -/

/-- At the path there is a file, no link, that may be read and holds the text, in no more bytes than the settings allow. -/
structure HoldsText (m : Machine) (settings : Settings) (p : Path) (t : Text) : Prop where
  exists_file : ∃ n, m.status p.text false = .ok n ∧ n.isRegular = true ∧ n.mayRead = true ∧ n.bytes = Utf8.encode t
  size_le : (Utf8.size t : Int) ≤ settings.maxFileSize

theorem textOfBytes_eq_ok_iff {bytes : List UInt8} {source : Text} :
    textOfBytes bytes = .ok source ↔ ∃ t, bytes = Utf8.encode t ∧ source = unifyLineEnds t := by
  rw [textOfBytes]
  constructor
  · intro h
    cases hdecode : Utf8.decode bytes with
    | error e => simp [hdecode, Except.map] at h
    | ok t =>
      rw [hdecode] at h
      exact ⟨t, Utf8.decode_eq_ok_iff.1 hdecode, (Except.ok.inj h).symm⟩
  · rintro ⟨t, hbytes, rfl⟩
    rw [Utf8.decode_eq_ok_iff.2 hbytes]
    rfl

/-- What is read has been looked at. -/
theorem exists_status_of_readSnippetUpTo (h : m.readSnippetUpTo maxSize p = .ok s) :
    ∃ n, m.status p.text false = .ok n := by
  obtain ⟨n, hn, -⟩ := bind_eq_ok_iff.1 h
  exact ⟨n, (inspect_eq_ok (mapError_eq_ok_iff.1 hn)).1⟩

/-- There is a snippet if the settings pass their check and the file holds a text, and only then. -/
theorem readSnippet_eq_ok_iff : m.readSnippet d p = .ok s ↔
    ∃ settings t, d.checked = .ok settings ∧ m.HoldsText settings p t ∧ s = .extract (unifyLineEnds t) := by
  rw [readSnippet, bind_eq_ok_iff]
  constructor
  · rintro ⟨settings, hsettings, h⟩
    obtain ⟨n, hn⟩ := exists_status_of_readSnippetUpTo h
    obtain ⟨hregular, hsize, hread, source, hsource, rfl⟩ := (readSnippetUpTo_eq_ok_iff hn).1 h
    obtain ⟨t, hbytes, rfl⟩ := textOfBytes_eq_ok_iff.1 hsource
    rw [hbytes] at hsize
    exact ⟨settings, t, mapError_eq_ok_iff.1 hsettings, ⟨⟨n, hn, hregular, hread, hbytes⟩, hsize⟩, rfl⟩
  · rintro ⟨settings, t, hsettings, ⟨⟨n, hn, hregular, hread, hbytes⟩, hsize⟩, rfl⟩
    refine ⟨settings, mapError_eq_ok_iff.2 hsettings, (readSnippetUpTo_eq_ok_iff hn).2 ?_⟩
    exact ⟨hregular, by rwa [hbytes], hread, _, textOfBytes_eq_ok_iff.2 ⟨t, hbytes, rfl⟩, rfl⟩

/-! ### When there is none -/

theorem checkSize_eq_error {e : AccessError} (h : checkSize n maxSize p = .error e) : e.isSystem = true := by
  unfold checkSize at h
  split at h
  · obtain rfl := Except.error.inj h
    rfl
  · cases h

theorem readBytes_eq_error {e : AccessError} (hstatus : m.status p.text true = .ok n) (h : m.readBytes p = .error e) :
    e.isSystem = true := by
  simp only [readBytes, hstatus] at h
  split at h
  · obtain rfl := Except.error.inj h
    rfl
  split at h
  · obtain rfl := Except.error.inj h
    rfl
  · cases h

theorem readSnippetUpTo_ne_fault (hp : '\x00' ∉ p.text) : m.readSnippetUpTo maxSize p ≠ .error (.fault f) := by
  intro hread
  -- The file is looked at, measured and read; what the system has found, it does not fail to find again.
  rcases bind_eq_error_iff.1 hread with hread | ⟨n, hn, hread⟩
  · obtain ⟨e, he, hf⟩ := mapError_eq_error_iff.1 hread
    exact SourceError.ofAccess_ne_fault ((inspect_eq_error he).resolve_right hp) hf
  obtain ⟨hstatus, hregular⟩ := inspect_eq_ok (mapError_eq_ok_iff.1 hn)
  have hlink : n.isLink = false := by cases n <;> simp_all [Node.isRegular, Node.isLink]
  rcases bind_eq_error_iff.1 hread with hread | ⟨_, -, hread⟩
  · obtain ⟨e, he, hf⟩ := mapError_eq_error_iff.1 hread
    exact SourceError.ofAccess_ne_fault (checkSize_eq_error he) hf
  rcases bind_eq_error_iff.1 hread with hread | ⟨bytes, -, hread⟩
  · obtain ⟨e, he, hf⟩ := mapError_eq_error_iff.1 hread
    exact SourceError.ofAccess_ne_fault (readBytes_eq_error (status_eq_of_not_link hstatus hlink) he) hf
  · split at hread <;> cases hread

/-- Without a null character in its path a file is read or refused. -/
theorem readSnippet_ne_fault (hp : '\x00' ∉ p.text) : m.readSnippet d p ≠ .error (.fault f) := by
  intro hread
  rcases bind_eq_error_iff.1 hread with hread | ⟨settings, -, hread⟩
  · obtain ⟨e, -, hf⟩ := mapError_eq_error_iff.1 hread
    cases hf
  · exact readSnippetUpTo_ne_fault hp hread

/-! ### Reading -/

/-- Of a file that may be read, holds lines and is not too large, the snippet is that of the lines, whatever ends them.
Whatever is at a path, and whatever the settings, there is a snippet just if the settings pass their check and the path is
that of such a file, and it is the snippet of its text; otherwise there is an error that is reported. -/
theorem readSnippet_reads (m : Machine) (d : Draft) (p : Path) :
    (∀ settings separator ls, d.checked = .ok settings → IsLineEnd separator → (∀ l ∈ ls, '\r' ∉ l ∧ '\n' ∉ l) →
      m.HoldsText settings p (joined separator ls) → m.readSnippet d p = .ok (.extract (ofLines ls))) ∧
    (∀ s, m.readSnippet d p = .ok s ↔
      ∃ settings t, d.checked = .ok settings ∧ m.HoldsText settings p t ∧ s = .extract (unifyLineEnds t)) ∧
    ('\x00' ∉ p.text →
      (∃ s, m.readSnippet d p = .ok s) ∨ ∃ e, m.readSnippet d p = .error e ∧ ∀ f, e ≠ .fault f) := by
  refine ⟨fun settings separator ls hsettings hseparator hls hholds => ?_, fun s => readSnippet_eq_ok_iff, fun hp => ?_⟩
  · exact readSnippet_eq_ok_iff.2 ⟨settings, _, hsettings, hholds, by rw [unifyLineEnds_joined hseparator hls]⟩
  · cases hread : m.readSnippet d p with
    | ok s => exact .inl ⟨s, rfl⟩
    | error e =>
      refine .inr ⟨e, rfl, ?_⟩
      rintro f rfl
      exact readSnippet_ne_fault hp hread

/-- A machine with one file, whose lines end with carriage returns. -/
def returning (mode : Nat) : Machine where
  root := .directory [("a".toList, .file (Utf8.encode "// é\r\rx\r".toList) mode)] 0o755

/-- The path of the file. -/
def returned : Path := ⟨.root, ["a".toList]⟩

theorem returning_refused : (returning 0).readSnippet {} returned =
    .error (.access (.inaccessible returned { errno := .denied, path := returned.text })) := rfl

theorem returning_readSnippet :
    (returning 0o644).HoldsText {} returned (joined ['\r'] ["// é".toList, [], "x".toList, []]) ∧
      (returning 0o644).readSnippet {} returned = .ok { explanation := ["é".toList], code := ["x".toList] } ∧
      (∃ e, (returning 0).readSnippet {} returned = .error e ∧ ∀ f, e ≠ .fault f) := by
  have hholds : (returning 0o644).HoldsText {} returned (joined ['\r'] ["// é".toList, [], "x".toList, []]) :=
    ⟨⟨_, rfl, rfl, by decide, by decide⟩, by decide⟩
  refine ⟨hholds, ?_, ?_⟩
  · exact (readSnippet_reads (returning 0o644) {} returned).1 {} ['\r'] _ rfl (.inr (.inr rfl)) (by decide) hholds
  · refine ((readSnippet_reads (returning 0) {} returned).2.2 (by decide)).resolve_left ?_
    rintro ⟨s, hs⟩
    rw [returning_refused] at hs
    cases hs

/-- A file that may not be read is refused, though it holds a text that is not too large. -/
theorem not_forall_readSnippet : ¬ ∀ (m : Machine) (d : Draft) (p : Path), '\x00' ∉ p.text →
    ∀ settings n t, d.checked = .ok settings → m.status p.text false = .ok n → n.isRegular = true →
      n.bytes = Utf8.encode t → (Utf8.size t : Int) ≤ settings.maxFileSize →
        m.readSnippet d p = .ok (.extract (unifyLineEnds t)) := by
  intro h
  have hresult := h (returning 0) {} returned (by decide) {} _ _ rfl rfl rfl rfl (by decide)
  rw [returning_refused] at hresult
  cases hresult

end Machine
end CodeSnippets
