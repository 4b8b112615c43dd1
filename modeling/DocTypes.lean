import DocTypes.Main
import DocTypes.Proofs.Markup.Tag
import DocTypes.Proofs.Text.Lines
import DocTypes.Proofs.Markup.Escape
import DocTypes.Proofs.Page.Regroup
import DocTypes.Proofs.Text.Plain
import DocTypes.Proofs.Page.Cleaning
import DocTypes.Proofs.Page.Sections
import DocTypes.Proofs.Page.Article
import DocTypes.Proofs.Reading.Blocks
import DocTypes.Proofs.Reading.Article
import DocTypes.Proofs.Reading.Concatenation
import DocTypes.Proofs.Page.Nesting
import DocTypes.Proofs.Page.Division
import DocTypes.Proofs.Reading.Results
import DocTypes.Proofs.Content.Shape
import DocTypes.Proofs.Declaration.Comment
import DocTypes.Proofs.Declaration.Lines
import DocTypes.Proofs.Declaration.Sections
import DocTypes.Proofs.Report
import DocTypes.Proofs.Declaration.Names
import DocTypes.Proofs.Data.Codec
import DocTypes.Proofs.Data.Dump
import DocTypes.Proofs.Source
import DocTypes.Proofs.Page.Regrouped
import DocTypes.Proofs.Content.Row
import DocTypes.Proofs.Page.Demotion
import DocTypes.Proofs.Markup.Whole
import DocTypes.Proofs.Page.Shape
import DocTypes.Proofs.Run
import DocTypes.Proofs.Phrase.Keyword
import DocTypes.Proofs.Phrase.QuotedList
import DocTypes.Proofs.Phrase.BareList
import DocTypes.Proofs.Phrase.BareRun
import DocTypes.Proofs.Phrase.Narrowing
import DocTypes.Proofs.Phrase.Sentence
import DocTypes.Proofs.Phrase.NormalForm
import DocTypes.Proofs.Phrase.Alternatives
import DocTypes.Proofs.Phrase.Announcement
import DocTypes.Proofs.Content.Classification
import DocTypes.Proofs.Reading.Fault
import DocTypes.Proofs.Reading.Paragraphs
import DocTypes.Proofs.Page.Table
import DocTypes.Proofs.Markup.Encoding
import DocTypes.Proofs.Markup.Stripping
import DocTypes.Proofs.Declaration.Positions
import DocTypes.Proofs.Declaration.Filling
import DocTypes.Proofs.Type.Meaning
import DocTypes.Proofs.Type.Tally
import DocTypes.Proofs.Delivery
import DocTypes.Proofs.Override
