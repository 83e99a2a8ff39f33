-- Media types. The name of a file tells its type if its extension is known,
-- and its first bytes do so else. The type tells whether the file is text.
import CompileCommands.FileSystem

namespace CompileCommands

namespace Mime

/-! ## Types -/

/-- The type of bytes that are not text. -/
def octetStream : String := "application/octet-stream"

/-- The type of an empty file. -/
def zeroSize : String := "application/x-zerosize"

/-- The type of any other text. -/
def plainText : String := "text/plain"

/-- The types outside `text/` that are text nevertheless. -/
def textApplications : List String :=
  ["application/json", "application/xml", "application/javascript", "application/toml",
   "application/x-yaml", "application/x-shellscript", "application/x-perl",
   "application/x-ruby", zeroSize]

/-- A file of this type is not text. -/
def isBinary (mime : String) : Bool :=
  !(Text.startsWith mime "text/" || textApplications.contains mime)

/-! ## By name -/

/-- The types of known names. -/
def nameTable : List (String × List String) :=
  [("text/x-cmake", ["CMakeLists.txt"]), ("text/x-makefile", ["Makefile", "GNUmakefile"])]

/-- The types of known extensions. -/
def extensionTable : List (String × List String) :=
  [("text/x-csrc", ["c"]), ("text/x-chdr", ["h"]),
   ("text/x-c++src", ["cpp", "cxx", "cc", "c++", "cp"]),
   ("text/x-c++hdr", ["hpp", "hxx", "hh", "h++", "inl", "tcc"]),
   ("text/x-objcsrc", ["m"]), ("text/x-objc++src", ["mm"]),
   (plainText, ["txt", "log"]), ("text/markdown", ["md"]), ("text/x-cmake", ["cmake"]),
   ("text/x-python", ["py"]), ("text/rust", ["rs"]), ("application/json", ["json"]),
   ("application/xml", ["xml"]), ("application/javascript", ["js"]),
   ("application/toml", ["toml"]), ("application/x-yaml", ["yml", "yaml"]),
   ("application/x-shellscript", ["sh"]), ("application/pdf", ["pdf"]), ("image/png", ["png"]),
   ("image/jpeg", ["jpg", "jpeg"]), ("application/gzip", ["gz"]), ("application/zip", ["zip"])]

/-- The types that a file can be found to have. -/
def all : List String :=
  nameTable.map (·.1) ++ extensionTable.map (·.1) ++ [octetStream, zeroSize]

/-- The type in whose row a key stands. -/
def rowOf? (table : List (String × List String)) (key : String) : Option String :=
  (table.find? (·.2.contains key)).map (·.1)

/-- The type that the name of a file tells. The case of an extension does not
count. -/
def ofName? (file : Path) : Option String :=
  (file.fileName?.bind (rowOf? nameTable)).or
    (file.extension?.bind (fun ext => rowOf? extensionTable (Text.lower ext)))

/-! ## By content -/

/-- The number of first bytes that are looked at. -/
def sniffed : Nat := 512

/-- The type that the bytes of a file tell. A zero byte is not in a text. -/
def ofBytes (bytes : List UInt8) : String :=
  match bytes.take sniffed with
  | [] => zeroSize
  | start => if start.contains 0 then octetStream else plainText

/-- The type of a file. One that cannot be read is taken for no text. -/
def ofFile (fs : FileSystem) (file : Path) : String :=
  match ofName? file with
  | some mime => mime
  | none =>
    match fs.read file with
    | .ok bytes => ofBytes bytes
    | .error _ => octetStream

/-! ## Without a look at the type -/

/-- The extensions of files that are never text. -/
def binaryExtensions : List String :=
  ["o", "obj", "a", "lib", "so", "dylib", "dll", "exe", "pdb", "ilk", "pch", "gch", "pcm",
   "class", "jar", "pyc", "pyo", "wasm",
   "png", "jpg", "jpeg", "gif", "ico", "webp", "bmp", "tiff",
   "woff", "woff2", "ttf", "eot", "otf",
   "mp3", "mp4", "wav", "ogg", "webm", "avi", "mov", "flac",
   "zip", "tar", "gz", "rar", "7z", "bz2", "xz", "tgz", "zst",
   "pdf", "doc", "docx", "xls", "xlsx", "ppt", "pptx",
   "db", "sqlite", "sqlite3"]

/-- The extension of a file says that it is no text. The case of the letters
does not count. -/
def hasBinaryExtension (file : Path) (extra : List String) : Bool :=
  match file.extension? with
  | some ext => binaryExtensions.contains (Text.lower ext) || extra.any (Text.sameLetters ext)
  | none => false

end Mime

/-! ## Remembered verdicts -/

/-- What is known of some types: whether files of that type are not text. No
type is in it twice. -/
structure MimeCache where
  verdicts : List (String × Bool)
  nodup : (verdicts.map (·.1)).Nodup

namespace MimeCache

/-- Nothing is known. -/
def empty : MimeCache := ⟨[], List.nodup_nil⟩

/-- The number of types of which something is known. -/
def size (c : MimeCache) : Nat := c.verdicts.length

/-- What is known of a type. -/
def get? (c : MimeCache) (mime : String) : Option Bool := c.verdicts.lookup mime

/-- A type that is looked up without success is in none of the pairs. -/
theorem not_mem_of_lookup_eq_none {verdicts : List (String × Bool)} {mime : String}
    (h : verdicts.lookup mime = none) : mime ∉ verdicts.map (·.1) := by
  induction verdicts with
  | nil => simp
  | cons v rest ih =>
    obtain ⟨other, verdict⟩ := v
    by_cases same : mime = other
    · simp [same] at h
    · rw [List.lookup_cons, beq_false_of_ne same] at h
      simpa [same] using ih h

/-- The verdict on a type, and what is known after it was asked for. -/
def ask (c : MimeCache) (mime : String) : Bool × MimeCache :=
  match h : c.get? mime with
  | some verdict => (verdict, c)
  | none =>
    (Mime.isBinary mime, ⟨c.verdicts ++ [(mime, Mime.isBinary mime)], by
      have new := not_mem_of_lookup_eq_none h
      rw [List.map_append, List.nodup_append]
      refine ⟨c.nodup, by simp, ?_⟩
      rintro a ha b hb rfl
      obtain rfl : a = mime := List.mem_singleton.mp hb
      exact new ha⟩)

end MimeCache

end CompileCommands
