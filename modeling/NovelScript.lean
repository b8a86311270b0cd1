import NovelScript.Goldens
import NovelScript.Main
import NovelScript.Overview
import NovelScript.Session
import NovelScript.Draft.Pieces
import NovelScript.Proofs.Draft.Equivalence
import NovelScript.Proofs.Draft.Making
import NovelScript.Proofs.Draft.Spelling
import NovelScript.Proofs.Grammar.Heading
import NovelScript.Proofs.Grammar.Worded
import NovelScript.Proofs.Identity.Making
import NovelScript.Proofs.Reading.Faultless
import NovelScript.Proofs.Reading.Moving
import NovelScript.Proofs.RoundTrip.Again
import NovelScript.Proofs.RoundTrip.Legible
import NovelScript.Proofs.RoundTrip.Menu
import NovelScript.Proofs.RoundTrip.Page
import NovelScript.Proofs.RoundTrip.Single
import NovelScript.Proofs.Reading.Meaningful
import NovelScript.Proofs.Reading.Nested
import NovelScript.Proofs.Saving.Reload
import NovelScript.Proofs.RoundTrip.Alone
import NovelScript.Proofs.RoundTrip.Lasting
import NovelScript.Proofs.CommandLine.Again
import NovelScript.Proofs.CommandLine.Options
import NovelScript.Proofs.Source.Minima
import NovelScript.Proofs.Source.Depths
import NovelScript.Proofs.Reading.Stages
import NovelScript.Proofs.Reading.Fallback
import NovelScript.Proofs.Reading.Nests
import NovelScript.Proofs.Reading.Marks
import NovelScript.Proofs.Reading.Structure
import NovelScript.Proofs.Reading.Reads
import NovelScript.Proofs.RoundTrip.Dialogue
import NovelScript.Proofs.RoundTrip.Display
import NovelScript.Proofs.RoundTrip.Calls
import NovelScript.Proofs.RoundTrip.Code
import NovelScript.Proofs.Draft.Refusal
import NovelScript.Proofs.Goldens.Updating
import NovelScript.Proofs.Saving.Made
import NovelScript.Proofs.Text.Group
import NovelScript.Proofs.Text.Terminated
import NovelScript.Proofs.Number.Stable
import NovelScript.Proofs.Draft.Audio
