import GameBoyAssembler.CommandLine.Run
import GameBoyAssembler.Proofs.Files

/-!
# What a run does to files

A run reads its settings and its input, and then it fails, shows a text or writes one file.  Machine
code is not written to the input, but this is checked by comparing the two paths, and a text is
written without any check.  So the input is safe as long as no output file is named, and an output
path that is named may still lead to it.

Nothing here depends on how command lines and settings are spelled: the readers are parameters, and
so is the host, of which only what is documented of reading and writing is assumed.

Main definitions:

* `Host.Careful` — a host that does no more than it is asked for;
* `Host.OnTree` — a host on the files of a tree, which may still refuse some of them;
* `Host.Delivers`, `Host.BreaksOff` — what comes of the product of a run;
* `Options.writesText` — the output is a listing or a disassembly;
* `Options.OutputOf` — what is put out for a program, and where;
* `Options.Unguarded` — an output path that passes the check whatever file it leads to.

Main results:

* `Host.Careful.runOptions_cases` — everything that a run can do;
* `Options.programProduct_eq_ok_iff` — a program is turned into what is to be put out;
* `Options.unguarded_of_product` — how an output path can lead to the input;
* `input_kept_or_unguarded`, `input_replaced_by_run` — **when a run keeps its input**, and three runs
  that do not.
-/

set_option relaxedAutoImplicit false
set_option autoImplicit false

namespace GameBoyAssembler

/-! ### A run on any host -/

namespace Host

variable {φ : Type} {host : Host (StateM (World φ))} {readers : Readers} {o : Options} {w : World φ}
  {config : Config} {product : Options.Product}

/-- A host that does no more than it is asked for.  Reading changes nothing, and nor does a write
that fails.  A write that succeeds leaves the standard output alone, and showing leaves the files
alone.  Where showing fails, the standard output may have taken some of the bytes. -/
structure Careful (host : Host (StateM (World φ))) : Prop where
  read (path : String) (w : World φ) : (host.read path w).2 = w
  write_ok {path : String} {content : List UInt8} {w w' : World φ} :
    host.write path content w = (.ok (), w') → w'.stdout = w.stdout
  write_error {path : String} {content : List UInt8} {fault : FileFault} {w w' : World φ} :
    host.write path content w = (.error fault, w') → w' = w
  print_ok {bytes : List UInt8} {w w' : World φ} :
    host.print bytes w = (.ok (), w') → w' = { w with stdout := w.stdout ++ bytes }
  print_error {bytes : List UInt8} {fault : FileFault} {w w' : World φ} :
    host.print bytes w = (.error fault, w') →
      ∃ part, part <+: bytes ∧ w' = { w with stdout := w.stdout ++ part }

/-- What comes of a product: all of a text is shown and no file changes, or one file is written and
nothing is shown. -/
inductive Delivers (host : Host (StateM (World φ))) (w : World φ) :
    Options.Product → Outcome × World φ → Prop
  | shown {text : String} {w' : World φ} (hprint : host.print (bytesOf text) w = (.ok (), w'))
      (hworld : w' = { w with stdout := w.stdout ++ bytesOf text }) :
      Delivers host w (.shown text) (.done, w')
  | saved {path : String} {content : List UInt8} {w' : World φ}
      (hwrite : host.write path content w = (.ok (), w')) (hstdout : w'.stdout = w.stdout) :
      Delivers host w (.saved path content) (.done, w')

/-- A text is shown in part: the standard output does not take all of it, and the run says so. -/
inductive BreaksOff (host : Host (StateM (World φ))) (w : World φ) :
    Options.Product → Outcome × World φ → Prop
  | shown {text : String} {part : List UInt8} {fault : FileFault} {w' : World φ}
      (hprint : host.print (bytesOf text) w = (.error fault, w'))
      (hpart : part <+: bytesOf text) (hworld : w' = { w with stdout := w.stdout ++ part }) :
      BreaksOff host w (.shown text) (.failed (.unprintable fault), w')

theorem deliver_shown (text : String) :
    host.deliver (.shown text) w = match host.print (bytesOf text) w with
      | (.ok _, w') => (.done, w')
      | (.error fault, w') => (.failed (.unprintable fault), w') := by
  simp only [deliver, bind, StateT.bind]
  rcases host.print (bytesOf text) w with ⟨_ | _, _⟩ <;> rfl

theorem deliver_saved (path : String) (content : List UInt8) :
    host.deliver (.saved path content) w = match host.write path content w with
      | (.ok _, w') => (.done, w')
      | (.error fault, w') => (.failed (.unwritable path fault), w') := by
  simp only [deliver, bind, StateT.bind]
  rcases host.write path content w with ⟨_ | _, _⟩ <;> rfl

namespace Careful

/-- Reading the settings changes nothing. -/
theorem config_snd (h : host.Careful) (readers : Readers) (o : Options) (w : World φ) :
    (host.config readers o w).2 = w := by
  unfold config
  cases o.config with
  | some path => exact h.read path w
  | none =>
    cases host.configPath with
    | some path => exact h.read path w
    | none => rfl

/-- A product is delivered, or its text is shown in part, or the run fails. -/
theorem deliver_cases (h : host.Careful) (product : Options.Product) (w : World φ) :
    (∃ f, host.deliver product w = (.failed f, w))
      ∨ host.BreaksOff w product (host.deliver product w)
      ∨ host.Delivers w product (host.deliver product w) := by
  cases product with
  | shown text =>
    obtain ⟨result, w', hprint⟩ : ∃ result w', host.print (bytesOf text) w = (result, w') :=
      ⟨_, _, rfl⟩
    rw [deliver_shown, hprint]
    cases result with
    | ok _ => exact .inr (.inr (.shown hprint (h.print_ok hprint)))
    | error fault =>
      obtain ⟨part, hpart, hworld⟩ := h.print_error hprint
      exact .inr (.inl (.shown hprint hpart hworld))
  | saved path content =>
    obtain ⟨result, w', hwrite⟩ : ∃ result w', host.write path content w = (result, w') :=
      ⟨_, _, rfl⟩
    rw [deliver_saved, hwrite]
    cases result with
    | ok _ => exact .inr (.inr (.saved hwrite (h.write_ok hwrite)))
    | error fault => exact .inl ⟨.unwritable path fault, by rw [h.write_error hwrite]⟩

theorem runOptions_of_config_error (h : host.Careful) {f : Failure}
    (hconfig : (host.config readers o w).1 = .error f) :
    host.runOptions readers o w = (.failed f, w) := by
  have hread : host.config readers o w = (.error f, w) :=
    Prod.ext hconfig (h.config_snd readers o w)
  simp only [runOptions, bind, StateT.bind]
  rw [hread]
  rfl

/-- With its settings a run reads the input, and goes on with what this is turned into. -/
theorem runOptions_of_config (h : host.Careful)
    (hconfig : (host.config readers o w).1 = .ok config) :
    host.runOptions readers o w = match o.product config (host.read o.input w).1 with
      | .error f => (.failed f, w)
      | .ok product => host.deliver product w := by
  have hsettings : host.config readers o w = (.ok config, w) :=
    Prod.ext hconfig (h.config_snd readers o w)
  have hinput : host.read o.input w = ((host.read o.input w).1, w) :=
    Prod.ext rfl (h.read o.input w)
  simp only [runOptions, bind, StateT.bind]
  rw [hsettings]
  simp only [bind, StateT.bind]
  rw [hinput]
  dsimp only
  cases o.product config (host.read o.input w).1 <;> rfl

/-- **Everything that a run can do**: it fails and changes nothing, or it comes to a product, which
it shows in part or delivers. -/
theorem runOptions_cases (h : host.Careful) (readers : Readers) (o : Options) (w : World φ) :
    (∃ f, host.runOptions readers o w = (.failed f, w))
      ∨ ∃ config product, (host.config readers o w).1 = .ok config
          ∧ o.product config (host.read o.input w).1 = .ok product
          ∧ (host.BreaksOff w product (host.runOptions readers o w)
            ∨ host.Delivers w product (host.runOptions readers o w)) := by
  cases hconfig : (host.config readers o w).1 with
  | error f => exact .inl ⟨f, h.runOptions_of_config_error hconfig⟩
  | ok config =>
    cases hproduct : o.product config (host.read o.input w).1 with
    | error f => exact .inl ⟨f, by rw [h.runOptions_of_config hconfig, hproduct]⟩
    | ok product =>
      rw [h.runOptions_of_config hconfig, hproduct]
      rcases h.deliver_cases product w with hfailed | hended
      · exact .inl hfailed
      · exact .inr ⟨config, product, rfl, hproduct, hended⟩

end Careful

/-! ### A run on a tree of files -/

/-- A host on the files of a tree: what it reads is there, and what it writes replaces one file.  It
may refuse more than the tree does, for example a file that is protected. -/
structure OnTree (host : Host (StateM (World FileTree))) : Prop extends Careful host where
  read_tree {path : String} {content : List UInt8} {w : World FileTree} :
    (host.read path w).1 = .ok content → w.files.read path = .ok content
  write_tree {path : String} {content : List UInt8} {w w' : World FileTree} :
    host.write path content w = (.ok (), w') → w.files.write path content = .ok w'.files

end Host

theorem FileTree.write_host (configPath : Option String) (path : String) (content : List UInt8)
    (w : World FileTree) :
    (FileTree.host configPath).write path content w = match w.files.write path content with
      | .ok files => (.ok (), { w with files })
      | .error fault => (.error fault, w) := by
  simp only [host, bind, StateT.bind, get, getThe, MonadStateOf.get, StateT.get, pure]
  cases w.files.write path content <;> rfl

theorem FileTree.of_write_host_ok {configPath : Option String} {path : String}
    {content : List UInt8} {w w' : World FileTree}
    (h : (FileTree.host configPath).write path content w = (.ok (), w')) :
    ∃ files, w.files.write path content = .ok files ∧ w' = { w with files } := by
  rw [write_host] at h
  cases hwrite : w.files.write path content with
  | error fault =>
    rw [hwrite] at h
    cases h
  | ok files =>
    rw [hwrite] at h
    cases h
    exact ⟨files, rfl, rfl⟩

theorem FileTree.of_write_host_error {configPath : Option String} {path : String}
    {content : List UInt8} {fault : FileFault} {w w' : World FileTree}
    (h : (FileTree.host configPath).write path content w = (.error fault, w')) : w' = w := by
  rw [write_host] at h
  cases hwrite : w.files.write path content with
  | error _ =>
    rw [hwrite] at h
    cases h
    rfl
  | ok files =>
    rw [hwrite] at h
    cases h

/-- The files of a tree in memory are such a host. -/
theorem FileTree.onTree_host (configPath : Option String) : (FileTree.host configPath).OnTree where
  read _ _ := rfl
  write_ok h := by
    obtain ⟨files, -, rfl⟩ := of_write_host_ok h
    rfl
  write_error h := of_write_host_error h
  print_ok h := by
    cases h
    rfl
  print_error h := by cases h
  read_tree h := h
  write_tree h := by
    obtain ⟨files, hwrite, rfl⟩ := of_write_host_ok h
    exact hwrite

/-! ### Where the output goes -/

namespace Options

variable {o : Options} {config : Config} {path : String} {p : Program} {out : Product}

/-- The output is a text: a disassembly or a listing. -/
def writesText (o : Options) (config : Config) : Bool :=
  o.disassemble || o.listing || config.format == .listing

/-- The output path is named, and passes the check if there is one: a text is to go there, or the
path differs from that of the input. -/
def Unguarded (o : Options) (config : Config) (path : String) : Prop :=
  o.output = some path ∧ (o.writesText config = true ∨ samePath path o.input = false)

/-- What is put out for a program.  A listing is shown unless an output file is named; machine code goes
to this file or next to the input, but not to the path of the input. -/
inductive OutputOf (o : Options) (config : Config) (p : Program) : Product → Prop
  | listingShown (htext : o.writesText config = true) (hout : o.output = none) :
      OutputOf o config p (.shown p.listing)
  | listingSaved {path : String} (htext : o.writesText config = true) (hout : o.output = some path) :
      OutputOf o config p (.saved path (bytesOf p.listing))
  | imageSaved {path : String} (hbinary : o.writesText config = false)
      (hpath : o.output.or (withExtension? o.input config.extension) = some path)
      (hdiffers : samePath path o.input = false) : OutputOf o config p (.saved path p.image)

theorem writesText_iff (hdis : o.disassemble = false) : o.writesText config = true
    ↔ (if o.listing then .listing else config.format) = OutputFormat.listing := by
  cases hlisting : o.listing <;> simp [writesText, hdis, hlisting]

theorem output_of_textProduct {text : String} {bytes : List UInt8}
    (h : o.textProduct text = .saved path bytes) : o.output = some path := by
  unfold textProduct at h
  split at h
  next named hnamed =>
    cases h
    exact hnamed
  next => cases h

theorem outputOf_listing (htext : o.writesText config = true) :
    o.OutputOf config p out ↔ o.textProduct p.listing = out := by
  unfold textProduct
  constructor
  · intro h
    cases h with
    | listingShown _ hout | listingSaved _ hout => rw [hout]
    | imageSaved hbinary _ _ => cases htext.symm.trans hbinary
  · rintro rfl
    cases hout : o.output with
    | none => exact .listingShown htext hout
    | some path => exact .listingSaved htext hout

theorem imagePath_eq_ok_iff : o.imagePath config = .ok path
    ↔ o.output.or (withExtension? o.input config.extension) = some path := by
  unfold imagePath
  cases o.output.or (withExtension? o.input config.extension) <;> simp

theorem outputOf_image (hbinary : o.writesText config = false) :
    o.OutputOf config p out ↔
      ∃ path, o.imagePath config = .ok path ∧ samePath path o.input = false
        ∧ .saved path p.image = out := by
  constructor
  · intro h
    cases h with
    | listingShown htext _ | listingSaved htext _ => cases hbinary.symm.trans htext
    | imageSaved _ hpath hdiffers => exact ⟨_, imagePath_eq_ok_iff.2 hpath, hdiffers, rfl⟩
  · rintro ⟨path, hpath, hdiffers, rfl⟩
    exact .imageSaved hbinary (imagePath_eq_ok_iff.1 hpath) hdiffers

/-- A program is turned into what is to be put out for it. -/
theorem programProduct_eq_ok_iff (hdis : o.disassemble = false) :
    o.programProduct config p = .ok out ↔ o.OutputOf config p out := by
  have htext : o.writesText config = true ↔ _ := writesText_iff hdis
  unfold programProduct
  cases hformat : (if o.listing then .listing else config.format) with
  | listing =>
    rw [outputOf_listing (htext.2 hformat)]
    exact ⟨Except.ok.inj, congrArg Except.ok⟩
  | binary =>
    have hbinary : o.writesText config = false := by
      rw [hformat] at htext
      exact eq_false_of_ne_true fun h => nomatch htext.1 h
    rw [outputOf_image hbinary, bind_eq_ok_iff]
    refine exists_congr fun path => and_congr_right fun _ => ?_
    cases samePath path o.input <;> simp

/-- A text goes to the output file that is named, and machine code goes there or next to the input,
but not to the path of the input. -/
theorem product_saved {content : Except FileFault (List UInt8)} {bytes : List UInt8}
    (h : o.product config content = .ok (.saved path bytes)) :
    (∃ input, content = .ok input) ∧
      (o.writesText config = true ∧ o.output = some path
        ∨ o.writesText config = false
          ∧ o.output.or (withExtension? o.input config.extension) = some path
          ∧ samePath path o.input = false) := by
  unfold product at h
  split at h
  next hdis =>
    split at h
    · cases h
    next bytes' =>
      refine ⟨⟨bytes', rfl⟩, .inl ⟨by simp [writesText, hdis], ?_⟩⟩
      exact output_of_textProduct (Except.ok.inj h)
  next hdis =>
    split at h
    · cases h
    next source hsource =>
      refine ⟨?_, ?_⟩
      · cases content with
        | error fault => cases hsource
        | ok input => exact ⟨input, rfl⟩
      · split at h
        · cases h
        next p hp =>
          cases (programProduct_eq_ok_iff (eq_false_of_ne_true hdis)).1 h with
          | listingSaved htext hout => exact .inl ⟨htext, hout⟩
          | imageSaved hbinary hpath hdiffers => exact .inr ⟨hbinary, hpath, hdiffers⟩

theorem withExtension?_eq_some {path extension path' : String}
    (h : withExtension? path extension = some path') :
    '/' ∉ extension.toList ∧ withExtension path extension = path' := by
  unfold withExtension? at h
  split at h
  · cases h
  next hext => exact ⟨hext, Option.some.inj h⟩

/-- An output path that leads to the input is named, and passes the check. -/
theorem unguarded_of_product {tree : FileTree} {content : Except FileFault (List UInt8)}
    {bytes : List UInt8} (h : o.product config content = .ok (.saved path bytes))
    (hsame : tree.SameFile path o.input) : o.Unguarded config path := by
  obtain ⟨htext, hnamed⟩ | ⟨-, hpath, hdiffers⟩ := (product_saved h).2
  · exact ⟨hnamed, .inl htext⟩
  · cases hout : o.output with
    | some named =>
      rw [hout, Option.some_or] at hpath
      exact ⟨hout.trans hpath, .inr hdiffers⟩
    | none =>
      -- next to the input, the path would be that of the input, which is refused
      rw [hout, Option.none_or] at hpath
      obtain ⟨hext, rfl⟩ := withExtension?_eq_some hpath
      rw [FileTree.withExtension_eq_of_sameFile hext hsame] at hdiffers
      exact absurd hdiffers (by simp [samePath])

end Options

/-! ### The input of a run -/

theorem run_of_request {m : Type → Type} [Monad m] {readers : Readers} {args : List String}
    {o : Options} (h : readers.request args = .run o) (host : Host m) :
    run readers host args = host.runOptions readers o := by
  rw [run, h]

/-- **A run keeps its input**, or its output path leads to the same file and passes the check: it is
named, and a listing or a disassembly is to go there, or machine code and the path differs from that
of the input.  Then the output stands in place of the input.  This holds of every command line that
asks for a run, whatever the settings and the files are, and wherever in the tree the two paths
start. -/
theorem input_kept_or_unguarded {host : Host (StateM (World FileTree))} (hhost : host.OnTree)
    {readers : Readers} {args : List String} {o : Options} (hargs : readers.request args = .run o)
    (w : World FileTree) :
    (run readers host args w).2.files.read o.input = w.files.read o.input
      ∨ ∃ config path content,
          (host.config readers o w).1 = .ok config
          ∧ o.product config (host.read o.input w).1 = .ok (.saved path content)
          ∧ o.Unguarded config path ∧ w.files.SameFile path o.input
          ∧ (run readers host args w).2.files.read o.input = .ok content := by
  rw [run_of_request hargs]
  obtain ⟨f, h⟩ | ⟨config, product, hconfig, hproduct, hended⟩ :=
    hhost.runOptions_cases readers o w
  · rw [h]
    exact .inl rfl
  · generalize host.runOptions readers o w = r at hended ⊢
    rcases hended with ⟨-, -, rfl⟩ | hdelivers
    · exact .inl rfl
    · cases hdelivers with
      | shown _ hworld =>
        rw [hworld]
        exact .inl rfl
      | @saved path content w' hwrite _ =>
        obtain ⟨⟨input, hinput⟩, -⟩ := Options.product_saved hproduct
        have hread := hhost.read_tree hinput
        rcases FileTree.read_write (hhost.write_tree hwrite) hread with hkept | ⟨hnew, hsame⟩
        · exact .inl (hkept.trans hread.symm)
        · exact .inr ⟨config, path, content, hconfig, hproduct,
            Options.unguarded_of_product hproduct hsame, hsame, hnew⟩

/-- Readers that know a few command lines and one settings text. -/
def Readers.few : Readers where
  request
    | ["a.asm"] => .run { input := "a.asm" }
    | ["a.asm", "-o", path] => .run { input := "a.asm", output := some path }
    | ["a.asm", "-l", "-o", path] =>
        .run { input := "a.asm", output := some path, listing := true }
    | ["a.asm", "-l", "--keep-going", "--base=0x150"] =>
        .run { input := "a.asm", listing := true, keepGoing := true, base := some 0x150 }
    | _ => .usage "unexpected argument"
  settings
    | "[output]\nextension = \"bin\"" => .ok { extension := "bin" }
    | _ => .error "unexpected key"

/-- A working folder with the given files, and nothing shown yet. -/
def World.ofTexts (texts : List (String × String)) : World FileTree :=
  ⟨.ofFiles ["work"] (texts.map fun f => (f.1, bytesOf f.2)) [], []⟩

/-- A source with a settings file next to it that asks for another extension. -/
def World.configured : World FileTree :=
  .ofTexts [("a.asm", "NOP\n"), ("gbasm.toml", "[output]\nextension = \"bin\"")]

/-- Machine code goes next to the input, with the extension that is asked for. -/
theorem input_kept_beside_output :
    (run .few (FileTree.host (some "/work/gbasm.toml")) ["a.asm"] .configured).2.files.read
        "a.bin" = .ok [0x00]
      ∧ (run .few (FileTree.host (some "/work/gbasm.toml")) ["a.asm"] .configured).2.files.read
        "a.asm" = World.configured.files.read "a.asm" := by
  have hargs : Readers.few.request ["a.asm"] = .run { input := "a.asm" } := rfl
  refine ⟨by decide +kernel, ?_⟩
  obtain h | ⟨config, path, content, -, -, hopen, -⟩ :=
    input_kept_or_unguarded (FileTree.onTree_host (some "/work/gbasm.toml")) hargs .configured
  · exact h
  · -- no output file is named
    cases hopen.1

/-- A working folder with one source. -/
def World.oneSource : World FileTree :=
  .ofTexts [("a.asm", "NOP\n")]

/-- What is read of the source behind a run. -/
def sourceAfter (args : List String) : Except FileFault (List UInt8) :=
  (run .few (FileTree.host none) args .oneSource).2.files.read "a.asm"

/-- A listing goes to the path of the input.  Machine code goes to the input by a path that differs
from it by a dot in front, or that starts at the root. -/
theorem input_replaced_by_run :
    sourceAfter ["a.asm", "-l", "-o", "a.asm"] = .ok (bytesOf "0x0000 : [0x00] NOP\n")
      ∧ sourceAfter ["a.asm", "-o", "./a.asm"] = .ok [0x00]
      ∧ sourceAfter ["a.asm", "-o", "/work/a.asm"] = .ok [0x00] := by
  decide +kernel

end GameBoyAssembler
