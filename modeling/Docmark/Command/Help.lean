import Docmark.Text.Basic

namespace Docmark.Command

def help : Text :=
  Text.joinWith "\n" [
    "Convert XML API documentation to Markdown",
    "",
    "Usage: xmldocmd [OPTIONS]",
    "",
    "Options:",
    "  -i, --inputfile <inputfile>        Input XML documentation file",
    "      --cin                          Read the input XML from stdin",
    "  -o, --outputfile <outputfile>      " ++
      "Output Markdown file, or output directory in search mode",
    "      --cout                         Write the Markdown to stdout",
    "  -l, --secondaryDir <secondaryDir>  Also copy each result to <DIR>/docs/",
    "  -u, --unexpected <unexpected>      What to do with unknown tags " ++
      "[default: error] [possible values: accept, warn, error]",
    "  -s, --search <search>              Search this directory for build output directories",
    "  -d, --directory <directory>        " ++
      "Name of the build output directories to search for [default: Release]",
    "  -g, --git                          " ++
      "Link to anchors on a single page instead of per-assembly pages",
    "  -r, --readme                       Name the output README.md",
    "  -f, --settings <settings>          Settings file [default: settings.json]",
    "  -v, --verbose                      Enable debug logging",
    "  -h, --help                         Print help",
    ""]

end Docmark.Command
